import RustCfml.Serialize.Tokens

/-!
# Parsing a serialized value

The parser makes of a value's tokens the value that `Value.reread` describes (`reads_value`): hashes
of a text are lost, a date is what its wall clock is read as, members that were not written are
missing, and **there is nothing below the last level, at a query and at the least integer**.
-/

namespace RustCfml.Serialize

open Gregorian List Option

variable (zs : Zones)

mutual

/-- The value read from a value's tokens, with so many levels left below it. -/
def Value.reread : Nat → Value → Option Value
  | _, .null => some .null
  | _, .bool b => some (.bool b)
  | n, .int i => if 0 ≤ i.1 ∨ (n ≠ 0 ∧ i.1 ≠ -9223372036854775808) then some (.int i) else none
  | n, .date d _ =>
    let w := Clock.ofTimestamp (zs.current.localIn d)
    if n = 0 ∨ (n = 1 ∧ w.year < 0) then none
    else (zs.current.makeDateOf w (d.nanos / 1000000 : Nat)).toOption.map (.date · .dateTime)
  | _, .str s => some (.str (String.ofList (restored s.toList)))
  | n, .array items => (rereadItems n items).map .array
  | n, .struct members =>
    (rereadMembers n (keepsMember members) members).map fun ms => .struct (ValueMap.ofEntries ms [])
  | _, .query _ => none
termination_by structural _ v => v

def rereadItems : Nat → List Value → Option (List Value)
  | _, [] => some []
  | n, v :: vs => do
    let v ← (match n with | 0 => none | n + 1 => v.reread n)
    let vs ← rereadItems n vs
    some (v :: vs)
termination_by structural _ vs => vs

def rereadMembers (n : Nat) (keep : String → Bool) : List (String × Value) →
    Option (List (String × Value))
  | [] => some []
  | (k, v) :: ms =>
    if keep k then do
      let v ← (match n with | 0 => none | n + 1 => v.reread n)
      let ms ← rereadMembers n keep ms
      some ((String.ofList (restored k.toList), v) :: ms)
    else rereadMembers n keep ms
termination_by structural ms => ms

end

def rereadAt (n : Nat) (v : Value) : Option Value :=
  match n with
  | 0 => none
  | n + 1 => v.reread zs n

def rereadEntries (n : Nat) (keep : String → Bool) : List (String × Value) →
    List (Option (String × Value))
  | [] => []
  | (k, v) :: ms =>
    if keep k then
      (rereadAt zs n v).map (String.ofList (restored k.toList), ·) :: rereadEntries n keep ms
    else rereadEntries n keep ms

/-! ## Parsing lists -/

def collect {α : Type} : List (Option α) → Option (List α)
  | [] => some []
  | a :: as => do
    let a ← a
    let as ← collect as
    some (a :: as)

lemma collect_some {α : Type} (a : α) (as : List (Option α)) :
    collect (some a :: as) = (collect as).map (a :: ·) := by
  rw [collect]
  cases collect as <;> rfl

lemma rereadItems_cons (n : Nat) (v : Value) (vs : List Value) : rereadItems zs n (v :: vs)
      = (rereadAt zs n v).bind fun v => (rereadItems zs n vs).map (v :: ·) := by
  cases n with
  | zero => rfl
  | succ n =>
    show (v.reread zs n).bind (fun v => (rereadItems zs (n + 1) vs).bind fun vs => some (v :: vs)) =
      _
    rw [rereadAt]
    cases rereadItems zs (n + 1) vs <;> rfl

lemma rereadMembers_cons (n : Nat) (keep : String → Bool) (k : String) (v : Value)
    (ms : List (String × Value)) : rereadMembers zs n keep ((k, v) :: ms)
      = if keep k then (rereadAt zs n v).bind fun v =>
          (rereadMembers zs n keep ms).map ((String.ofList (restored k.toList), v) :: ·)
        else rereadMembers zs n keep ms := by
  cases n with
  | zero => rfl
  | succ n =>
    show (if keep k then (v.reread zs n).bind (fun v => (rereadMembers zs (n + 1) keep ms).bind
      fun ms => some ((String.ofList (restored k.toList), v) :: ms)) else _) = _
    rw [rereadAt]
    cases rereadMembers zs (n + 1) keep ms <;> rfl

lemma rereadItems_eq (n : Nat) (vs : List Value) :
    rereadItems zs n vs = collect (vs.map (rereadAt zs n)) := by
  induction vs with
  | nil => rfl
  | cons v vs ih =>
    rw [rereadItems_cons, ih, map_cons]
    cases rereadAt zs n v with
    | none => rfl
    | some w => rw [collect_some, bind_some]

lemma rereadMembers_eq (n : Nat) (keep : String → Bool) (ms : List (String × Value)) :
    rereadMembers zs n keep ms = collect (rereadEntries zs n keep ms) := by
  induction ms with
  | nil => rfl
  | cons m ms ih =>
    obtain ⟨k, v⟩ := m
    rw [rereadMembers_cons, rereadEntries, ih]
    split_ifs
    · cases rereadAt zs n v with
      | none => rfl
      | some w => rw [map_some, collect_some, bind_some]
    · rfl

@[simp] def Token.Closing (t : Token) : Prop := t = .rParen ∨ t = .rBracket ∨ t = .rBrace

/-- **What a parser makes of some tokens.** They do not start with a closing one, and what follows
them is no colon. -/
structure Reads {α : Type} (p : Parser α) (tokens : List Token) (a : Option α) : Prop where
  head : ∃ t ts, tokens = t :: ts ∧ ¬t.Closing
  reads : ∀ rest : List Token, rest.head? ≠ some .colon → p (tokens ++ rest) = a.map (·, rest)

section

variable {α : Type} {item : Parser α}

lemma joinWith_head {t : Token} {ts k : List Token} (hk : k = t :: ts) (ks : List (List Token)) :
    ∃ us, joinWith .comma (k :: ks) = t :: us := by
  subst hk
  cases ks with
  | nil => exact ⟨ts, rfl⟩
  | cons _ _ => exact ⟨_, rfl⟩

lemma rounds_reads {close : Token} (hclose : close.Closing) (trailing : Bool) :
    ∀ {ks : List (List Token)} {as : List (Option α)}, Forall₂ (Reads item) ks as →
    ∀ {k : List Token} {a : Option α}, Reads item k a → ∀ (fuel : Nat), ks.length < fuel →
    ∀ rest, rounds item close trailing fuel (joinWith .comma (k :: ks) ++ close :: rest)
      = (collect (a :: as)).map (·, rest) := by
  intro ks as hks
  have hcolon : ∀ rest : List Token, (close :: rest).head? ≠ some .colon := by
    rcases hclose with rfl | rfl | rfl <;> simp
  induction hks with
  | nil =>
    intro k a hk fuel hfuel rest
    obtain ⟨fuel, rfl⟩ : ∃ m, fuel = m + 1 := ⟨fuel - 1, by simp at hfuel; omega⟩
    rw [rounds, joinWith, hk.reads _ (hcolon rest)]
    cases a with
    | none => rfl
    | some a =>
      rcases hclose with rfl | rfl | rfl <;> simp [collect]
  | @cons k' a' ks as hk' hks ih =>
    intro k a hk fuel hfuel rest
    obtain ⟨fuel, rfl⟩ : ∃ m, fuel = m + 1 := ⟨fuel - 1, by simp at hfuel; omega⟩
    rw [rounds, joinWith_cons _ _ (by simp), append_assoc, cons_append, hk.reads _ (by simp)]
    cases a with
    | none => rfl
    | some a =>
      have hnext := ih hk' fuel (by simp at hfuel; omega) rest
      obtain ⟨t, ts, hts, hopen⟩ := hk'.head
      obtain ⟨us, hus⟩ := joinWith_head hts ks
      -- a comma is followed by another item
      have hhead :
          ¬(trailing = true ∧ (joinWith .comma (k' :: ks) ++ close :: rest).head? =
              some close) := by
        rw [hus]
        rintro ⟨_, h⟩
        simp [head?_cons] at h
        exact hopen (h ▸ hclose)
      simp only [map_some, bind_eq_bind, bind_some]
      rw [if_neg hhead, hnext, collect_some]
      cases collect (a' :: as) <;> rfl

lemma listOf_reads {close : Token} (hclose : close.Closing) (trailing : Bool)
    {ks : List (List Token)}
    {as : List (Option α)} (h : Forall₂ (Reads item) ks as) (rest : List Token) :
    listOf item close trailing (joinWith .comma ks ++ close :: rest) =
    (collect as).map (·, rest) := by
  cases h with
  | nil =>
    simp [listOf, joinWith, collect]
  | @cons k a ks as hk hks =>
    obtain ⟨t, ts, hts, hopen⟩ := hk.head
    obtain ⟨us, hus⟩ := joinWith_head hts ks
    have hhead : (joinWith .comma (k :: ks) ++ close :: rest).head? ≠ some close := by
      rw [hus]
      simp [head?_cons]
      rintro rfl
      exact hopen hclose
    rw [listOf, if_neg hhead]
    refine rounds_reads hclose trailing hks hk _ ?_ rest
    -- there are at least as many tokens as items
    have hlen : ∀ {ks : List (List Token)} {as : List (Option α)},
        Forall₂ (Reads item) ks as → ks.length ≤ (joinWith .comma ks).length := by
      intro ks as h
      induction h with
      | nil => simp
      | @cons k a ks as hk _ ih =>
        obtain ⟨t, ts, rfl, -⟩ := hk.head
        cases ks with
        | nil => simp [joinWith]
        | cons k' ks =>
          rw [joinWith_cons _ _ (by simp)]
          simp at ih ⊢
          omega
    have := hlen (Forall₂.cons hk hks)
    simp at this ⊢
    omega

end

/-! ## Parsing a value -/

variable {tokens : List Token} {n : Nat} {inner : Parser Value} {a : Option Value}

lemma natToken_of_le (h : n ≤ i64Max) : natToken n = .integer ⟨n, i64_of_le h⟩ := dif_pos h

lemma natToken_cases (n : Nat) : (∃ i, natToken n = .integer i) ∨ natToken n = .double := by
  by_cases h : n ≤ i64Max
  · exact .inl ⟨_, natToken_of_le h⟩
  · exact .inr (dif_neg h)

lemma not_closing_natToken (n : Nat) : ¬(natToken n).Closing := by
  rcases natToken_cases n with ⟨i, h⟩ | h <;> rw [h] <;> simp

lemma parseUnary_natToken (inner : Parser Value) (n : Nat) (rest : List Token) :
    parseUnary zs inner (natToken n :: rest)
      = if h : n ≤ i64Max then some (.int ⟨n, i64_of_le h⟩, rest) else none := by
  split
  · next h => rw [natToken_of_le h]; rfl
  · next h => rw [natToken, dif_neg h]; rfl

lemma reads_int (n : Nat) (i : I64) :
    Reads (parseUnary zs (parseExpression zs n)) (intTokens i.1) ((Value.int i).reread zs n) := by
  have hi := i.2
  rw [Value.reread]
  by_cases h : i.1 < 0
  · rw [intTokens, if_pos h]
    refine ⟨⟨_, _, rfl, by simp⟩, fun rest _ => ?_⟩
    have hminus : parseUnary zs (parseExpression zs n) ([.minus, natToken i.1.natAbs] ++ rest)
        = (parseExpression zs n (natToken i.1.natAbs :: rest)).bind fun r =>
            (negate r.1).bind fun v => some (v, r.2) := rfl
    rw [hminus]
    cases n with
    | zero => simp [parseExpression, show ¬(0 : Int) ≤ i.1 by omega]
    | succ n =>
      rw [parseExpression, parseUnary_natToken]
      by_cases hmin : i.1 = -9223372036854775808
      · rw [dif_neg (by unfold i64Max; omega), if_neg (by omega)]
        rfl
      · have hneg : negate (.int ⟨(i.1.natAbs : Int), by omega⟩) = some (.int i) := by
          rw [negate, dif_neg (by simp only; omega)]
          exact congrArg (some ∘ Value.int) (Subtype.ext (by simp only; omega))
        rw [dif_pos (by unfold i64Max; omega), if_pos (.inr ⟨by omega, hmin⟩)]
        simp only [bind_some, hneg, map_some]
  · rw [intTokens, if_neg h, if_pos (.inl (by omega))]
    refine ⟨⟨_, _, rfl, not_closing_natToken _⟩, fun rest _ => ?_⟩
    rw [singleton_append, parseUnary_natToken, dif_pos (by unfold i64Max; omega)]
    exact congrArg (fun j => some (Value.int j, rest)) (Subtype.ext (by simp only; omega))

lemma reads_at {v : Value}
    (h : ∀ n, Reads (parseUnary zs (parseExpression zs n)) tokens (v.reread zs n)) :
    ∀ n, Reads (parseExpression zs n) tokens (rereadAt zs n v)
  | 0 => ⟨(h 0).head, fun _ _ => rfl⟩
  | n + 1 => h n

lemma reads_argument (h : Reads inner tokens a)
    (hname : ∀ k ts, tokens ≠ .string k :: .colon :: ts) :
    Reads (parseArgument inner) tokens (a.map (none, ·)) := by
  refine ⟨h.head, fun rest hrest => ?_⟩
  have hpos : parseArgument inner (tokens ++ rest)
      = (inner (tokens ++ rest)).bind fun r => some ((none, r.1), r.2) := by
    obtain ⟨t, ts, rfl, -⟩ := h.head
    unfold parseArgument
    split
    next k rest' heq =>
      -- a name would end in the tokens, or in a colon after them
      exfalso
      simp at heq
      obtain ⟨rfl, heq⟩ := heq
      cases ts with
      | nil =>
        rw [nil_append] at heq
        exact hrest (by rw [heq]; rfl)
      | cons t' ts =>
        simp at heq
        exact hname k ts (by rw [heq.1])
    next => rfl
  rw [hpos, h.reads rest hrest]
  cases a <;> rfl

lemma reads_member (k : Text) (h : Reads inner tokens a) :
    Reads (parseMember inner) (.string k :: .colon :: tokens) (a.map (String.ofList k, ·)) := by
  refine ⟨⟨_, _, rfl, by simp⟩, fun rest hrest => ?_⟩
  have hpair : parseMember inner (.string k :: .colon :: tokens ++ rest)
      = (inner (tokens ++ rest)).bind fun r => some ((String.ofList k, r.1), r.2) := rfl
  rw [hpair, h.reads rest hrest]
  cases a <;> rfl

lemma call_nullValue (args : List (Option String × Value)) :
    call zs "nullValue".toList args = some .null := by
  have h : "nullValue".toList.map Char.toLower = "nullvalue".toList := by decide +kernel
  simp only [call]
  rw [if_pos h]

lemma call_createDateTime (args : List (Option String × Value)) :
    call zs "createDateTime".toList args = createDateTime zs args := by
  have h1 : "createDateTime".toList.map Char.toLower ≠ "nullvalue".toList := by decide +kernel
  have h2 : "createDateTime".toList.map Char.toLower = "createdatetime".toList := by decide +kernel
  simp only [call]
  rw [if_neg h1, if_pos h2]

lemma call_query (args : List (Option String × Value)) : call zs "query".toList args = none := by
  have h1 : "query".toList.map Char.toLower ≠ "nullvalue".toList := by decide +kernel
  have h2 : "query".toList.map Char.toLower ≠ "createdatetime".toList := by decide +kernel
  simp only [call]
  rw [if_neg h1, if_neg h2]

lemma parseUnary_call (inner : Parser Value) (name : Text) (rest : List Token) :
    parseUnary zs inner (.identifier name :: .lParen :: rest)
      = (listOf (parseArgument inner) .rParen false rest).bind fun r =>
          (call zs name r.1).bind fun v => some (v, r.2) := rfl

lemma localIn_range (z : Zone) (d : CfmlDate) : minStamp ≤ z.localIn d ∧
    z.localIn d ≤ maxStamp := by
  rw [Zone.localIn, fromTimestamp]
  split_ifs with h
  · exact h
  · have := stamps
    simp
    omega

lemma reads_field (i : I64) : Reads (parseArgument (parseExpression zs n)) (intTokens i.1)
      ((rereadAt zs n (.int i)).map (none, ·)) := by
  refine reads_argument (reads_at zs (fun n => reads_int zs n i) n) fun k ts heq => ?_
  unfold intTokens at heq
  split_ifs at heq
  · cases heq
  · simp at heq

lemma reads_zoneName (n : Nat) :
    Reads (parseArgument (parseExpression zs n)) [.string zs.current.name]
      ((rereadAt zs n (.str (String.ofList zs.current.name))).map (none, ·)) := by
  refine reads_argument (reads_at zs (fun n => ?_) n) fun k ts heq => nomatch heq
  refine ⟨⟨_, _, rfl, by simp⟩, fun rest _ => ?_⟩
  rw [Value.reread, String.toList_ofList, restored_of_hashSafe (name_hashSafe zs)]
  rfl

lemma rereadAt_int_of_nonneg {i : I64} (h : 0 ≤ i.1) (n : Nat) :
    rereadAt zs (n + 1) (.int i) = some (.int i) := by
  rw [rereadAt, Value.reread, if_pos (.inl h)]

lemma reads_date (d : CfmlDate) (kind : DateKind) (n : Nat) :
    Reads (parseUnary zs (parseExpression zs n)) ((Value.date d kind).tokens zs)
      ((Value.date d kind).reread zs n) := by
  have hstamp := localIn_range zs.current d
  rw [Value.tokens, Value.reread]
  simp only [dateFields]
  generalize hw : Clock.ofTimestamp (zs.current.localIn d) = w
  have hvalid : w.Valid := hw ▸ Clock.valid_ofTimestamp _
  have hyear : -262143 ≤ w.year ∧ w.year ≤ 262142 := by
    refine (range_iff_year hvalid.lenient).1 ?_
    rw [← hw, Clock.timestamp_ofTimestamp]
    exact hstamp
  have hmonth := hvalid.month
  have hday := hvalid.day
  have hdays := Clock.daysInMonth_le w.year w.month
  have hhour := hvalid.hour
  have hminute := hvalid.minute
  have hsecond := hvalid.second
  have hnanos := d.nanos_lt
  -- the fields as the integers they are read as
  let year : I64 := ⟨w.year, by omega⟩
  let month : I64 := ⟨w.month, by omega⟩
  let day : I64 := ⟨w.day, by omega⟩
  let hour : I64 := ⟨w.hour, by omega⟩
  let minute : I64 := ⟨w.minute, by omega⟩
  let second : I64 := ⟨w.second, by omega⟩
  let milli : I64 := ⟨(d.nanos / 1000000 : Nat), by omega⟩
  refine ⟨⟨_, _, rfl, by simp⟩, fun rest _ => ?_⟩
  have hargs : Forall₂ (Reads (parseArgument (parseExpression zs n)))
      ([year.1, month.1, day.1, hour.1, minute.1, second.1, milli.1].map intTokens ++
        [[.string zs.current.name]])
      (([year, month, day, hour, minute, second, milli].map fun i =>
          (rereadAt zs n (.int i)).map (none, ·))
        ++ [(rereadAt zs n (.str (String.ofList zs.current.name))).map (none, ·)]) := by
    simp only [map_cons, map_nil, cons_append, nil_append]
    exact .cons (reads_field zs _) <| .cons (reads_field zs _) <| .cons (reads_field zs _) <|
      .cons (reads_field zs _) <| .cons (reads_field zs _) <| .cons (reads_field zs _) <|
      .cons (reads_field zs _) <| .cons (reads_zoneName zs n) .nil
  have hlist := listOf_reads (.inl rfl : Token.rParen.Closing) false hargs rest
  rw [cons_append, cons_append, append_assoc, parseUnary_call]
  refine (congrArg (fun args => Option.bind args fun r =>
    (call zs "createDateTime".toList r.1).bind fun v => some (v, r.2)) hlist).trans ?_
  cases n with
  | zero => rfl
  | succ n =>
    have hlater : [month, day, hour, minute, second, milli].map (fun i =>
        (rereadAt zs (n + 1) (.int i)).map ((none : Option String), ·))
        = [month, day, hour, minute, second, milli].map fun i => some (none, .int i) := by
      refine map_congr_left fun i hi => ?_
      have hnonneg : 0 ≤ i.1 := by
        simp at hi
        rcases hi with rfl | rfl | rfl | rfl | rfl | rfl <;>
          simp only [month, day, hour, minute, second, milli] <;> omega
      rw [rereadAt_int_of_nonneg zs hnonneg]
      rfl
    have hname : rereadAt zs (n + 1) (.str (String.ofList zs.current.name))
        = some (.str (String.ofList zs.current.name)) := by
      rw [rereadAt, Value.reread, String.toList_ofList, restored_of_hashSafe (name_hashSafe zs)]
    rw [map_cons, hlater, hname]
    by_cases hneg : n = 0 ∧ w.year < 0
    · have hnone : rereadAt zs (n + 1) (.int year) = none := by
        rw [rereadAt, Value.reread, if_neg]
        simp only [year]
        omega
      rw [hnone, if_pos (.inr ⟨by omega, hneg.2⟩)]
      rfl
    · have hsome : rereadAt zs (n + 1) (.int year) = some (.int year) := by
        rw [rereadAt, Value.reread, if_pos]
        simp only [year]
        omega
      have hmade : createDateTime zs
          [(none, .int year), (none, .int month), (none, .int day), (none, .int hour),
            (none, .int minute), (none, .int second), (none, .int milli),
            (none, .str (String.ofList zs.current.name))]
          = (zs.current.makeDateOf w (d.nanos / 1000000 : Nat)).toOption.map
              (.date · .dateTime) := by
        simp only [createDateTime, String.toList_ofList, argTz_name, bind_eq_bind, bind_some]
        show Option.bind (zs.current.makeDateOf w (d.nanos / 1000000 : Nat)).toOption
          (fun d => some (Value.date d .dateTime)) = _
        cases (zs.current.makeDateOf w (d.nanos / 1000000 : Nat)).toOption <;> rfl
      have hnil : collect ([] : List (Option (Option String × Value))) = some [] := rfl
      rw [hsome, if_neg (by omega)]
      simp only [map_cons, map_nil, cons_append, nil_append, map_some,
        collect_some, hnil, bind_some, call_createDateTime, hmade]
      cases (zs.current.makeDateOf w (d.nanos / 1000000 : Nat)).toOption <;> rfl

mutual

theorem reads_value : ∀ (v : Value) (n : Nat),
    Reads (parseUnary zs (parseExpression zs n)) (v.tokens zs) (v.reread zs n)
  | .null, n => by
    refine ⟨⟨_, _, rfl, by simp⟩, fun rest _ => ?_⟩
    have hlist := listOf_reads (.inl rfl : Token.rParen.Closing) false
      (Forall₂.nil : Forall₂ (Reads (parseArgument (parseExpression zs n))) [] []) rest
    rw [Value.tokens, Value.reread, cons_append, cons_append, parseUnary_call]
    refine (congrArg (fun args => Option.bind args fun r =>
      (call zs "nullValue".toList r.1).bind fun v => some (v, r.2)) hlist).trans ?_
    simp only [collect, map_some, bind_some, call_nullValue]
  | .bool b, n => ⟨⟨_, _, rfl, by simp⟩, fun _ _ => rfl⟩
  | .int i, n => reads_int zs n i
  | .date d kind, n => reads_date zs d kind n
  | .str s, n => ⟨⟨_, _, rfl, by simp⟩, fun _ _ => rfl⟩
  | .array items, n => by
    refine ⟨⟨_, _, rfl, by simp⟩, fun rest _ => ?_⟩
    have hlist := listOf_reads (.inr (.inl rfl) : Token.rBracket.Closing) true
      (reads_items items n) rest
    have hparse : ∀ rest', parseUnary zs (parseExpression zs n) (.lBracket :: rest')
        = (listOf (parseExpression zs n) .rBracket true rest').bind fun r =>
            some (.array r.1, r.2) := fun _ => rfl
    rw [Value.tokens, Value.reread, cons_append, append_assoc, hparse, singleton_append, hlist,
      rereadItems_eq]
    cases collect (items.map (rereadAt zs n)) <;> rfl
  | .struct members, n => by
    refine ⟨⟨_, _, rfl, by simp⟩, fun rest _ => ?_⟩
    have hlist := listOf_reads (.inr (.inr rfl) : Token.rBrace.Closing) true
      (reads_members (keepsMember members) members n) rest
    have hparse : ∀ rest', parseUnary zs (parseExpression zs n) (.lBrace :: rest')
        = (listOf (parseMember (parseExpression zs n)) .rBrace true rest').bind fun r =>
            some (.struct (ValueMap.ofEntries r.1 []), r.2) := fun _ => rfl
    rw [Value.tokens, Value.reread, cons_append, append_assoc, hparse, singleton_append, hlist,
      rereadMembers_eq]
    cases collect (rereadEntries zs n (keepsMember members) members) <;> rfl
  | .query columns, n => by
    refine ⟨⟨_, _, rfl, by simp⟩, fun rest _ => ?_⟩
    rw [Value.tokens, Value.reread, cons_append, cons_append, parseUnary_call]
    simp only [call_query, bind_none, bind_fun_none, map_none]

theorem reads_items : ∀ (vs : List Value) (n : Nat),
    Forall₂ (Reads (parseExpression zs n)) (itemTokens zs vs) (vs.map (rereadAt zs n))
  | [], _ => .nil
  | v :: vs, n => .cons (reads_at zs (fun n => reads_value v n) n) (reads_items vs n)

theorem reads_members (keep : String → Bool) : ∀ (ms : List (String × Value)) (n : Nat),
    Forall₂ (Reads (parseMember (parseExpression zs n))) (memberTokens zs keep ms)
    (rereadEntries zs n keep ms)
  | [], _ => .nil
  | (k, v) :: ms, n => by
    have hms := reads_members keep ms n
    rw [memberTokens, rereadEntries]
    split_ifs
    · exact .cons (reads_member _ (reads_at zs (fun n => reads_value v n) n)) hms
    · exact hms

end

end RustCfml.Serialize
