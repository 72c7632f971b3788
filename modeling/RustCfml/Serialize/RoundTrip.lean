import RustCfml.Serialize.Reread

/-!
# `serialize` and `evaluate` as inverses

**A value comes back exactly when rereading it changes nothing** (`evaluate_serialize_iff`), and
then none of its texts has run.
-/

namespace RustCfml.Serialize

open Gregorian List Option

variable (zs : Zones)

mutual

/-- Dates are at millisecond precision, and no two keys of a struct fold to one text. -/
def Value.WellFormed : Value → Prop
  | .null => True
  | .bool _ => True
  | .int _ => True
  | .date d _ => d.AtMillis
  | .str _ => True
  | .array items => ItemsWellFormed items
  | .struct members => ValueMap.Distinct members ∧ MembersWellFormed members
  | .query columns => ColumnsWellFormed columns
termination_by structural v => v

def ItemsWellFormed : List Value → Prop
  | [] => True
  | v :: vs => v.WellFormed ∧ ItemsWellFormed vs
termination_by structural vs => vs

def MembersWellFormed : List (String × Value) → Prop
  | [] => True
  | (_, v) :: ms => v.WellFormed ∧ MembersWellFormed ms
termination_by structural ms => ms

def ColumnsWellFormed : List (String × List Value) → Prop
  | [] => True
  | (_, cells) :: cs => ItemsWellFormed cells ∧ ColumnsWellFormed cs
termination_by structural cs => cs

end

mutual

/-- What it takes for a value to come back, with so many levels left below it. -/
@[local simp] def Value.Restorable : Nat → Value → Prop
  | _, .null => True
  | _, .bool _ => True
  | n, .int i => 0 ≤ i.1 ∨ (n ≠ 0 ∧ i.1 ≠ -9223372036854775808)
  | n, .date d kind => n ≠ 0 ∧ kind = .dateTime ∧ zs.current.ReadsBack d
  | _, .str s => hashSafe s.toList = true
  | n, .array items => ItemsRestorable n items
  | n, .struct members =>
    (∀ m ∈ members, keepsMember members m.1 = true) ∧ MembersRestorable n members
  | _, .query _ => False
termination_by structural _ v => v

def ItemsRestorable : Nat → List Value → Prop
  | _, [] => True
  | n, v :: vs => (match n with | 0 => False | n + 1 => v.Restorable n) ∧ ItemsRestorable n vs
termination_by structural _ vs => vs

def MembersRestorable : Nat → List (String × Value) → Prop
  | _, [] => True
  | n, (k, v) :: ms =>
    (hashSafe k.toList = true ∧ (match n with | 0 => False | n + 1 => v.Restorable n)) ∧
      MembersRestorable n ms
termination_by structural _ ms => ms

end

def RestorableAt (n : Nat) (v : Value) : Prop :=
  match n with
  | 0 => False
  | n + 1 => v.Restorable zs n

lemma itemsRestorable_cons (n : Nat) (v : Value) (vs : List Value) :
    ItemsRestorable zs n (v :: vs) ↔ RestorableAt zs n v ∧ ItemsRestorable zs n vs := by
  cases n <;> exact Iff.rfl

lemma membersRestorable_cons (n : Nat) (k : String) (v : Value) (ms : List (String × Value)) :
    MembersRestorable zs n ((k, v) :: ms) ↔
      (hashSafe k.toList = true ∧ RestorableAt zs n v) ∧ MembersRestorable zs n ms := by
  cases n <;> exact Iff.rfl

lemma length_insert_le {α : Type} (m : ValueMap α) (k : String) (v : α) :
    (m.insert k v).length ≤ m.length + 1 ∧
      ((m.insert k v).length = m.length + 1 → m.insert k v = m ++ [(k, v)]) := by
  induction m with
  | nil => simp [ValueMap.insert]
  | cons e m ih =>
    obtain ⟨k', v'⟩ := e
    rw [ValueMap.insert]
    split_ifs
    · simp
    · simp [Nat.add_right_cancel_iff]
      exact ⟨ih.1, fun h => by rw [ih.2 h]⟩

lemma ofEntries_eq_of_length {α : Type} (es m : ValueMap α) :
    (ValueMap.ofEntries es m).length ≤ m.length + es.length ∧
      ((ValueMap.ofEntries es m).length = m.length + es.length →
        ValueMap.ofEntries es m = m ++ es) := by
  induction es generalizing m with
  | nil => simp [ValueMap.ofEntries]
  | cons e es ih =>
    have hins := length_insert_le m e.1 e.2
    have hes := ih (m.insert e.1 e.2)
    have hstep : ValueMap.ofEntries (e :: es) m = ValueMap.ofEntries es (m.insert e.1 e.2) := rfl
    rw [hstep, length_cons]
    refine ⟨by omega, fun h => ?_⟩
    rw [hes.2 (by omega), hins.2 (by omega)]
    simp

lemma length_rereadMembers {n : Nat} {keep : String → Bool} {ms ps : List (String × Value)}
    (h : rereadMembers zs n keep ms = some ps) : ps.length ≤ ms.length := by
  induction ms generalizing ps with
  | nil =>
    cases h
    simp
  | cons m ms ih =>
    obtain ⟨k, v⟩ := m
    rw [rereadMembers_cons] at h
    split_ifs at h
    · obtain ⟨w, -, h⟩ := bind_eq_some_iff.1 h
      obtain ⟨qs, hqs, rfl⟩ := map_eq_some_iff.1 h
      have := ih hqs
      simp
      omega
    · have := ih h
      simp
      omega

lemma restored_eq_self_iff {t : Text} (h : (readBack t).isSome = true) : restored t = t ↔
    hashSafe t = true := by
  obtain ⟨u, hu⟩ := isSome_iff_exists.1 h
  rw [← readBack_eq_some_iff, restored, hu]
  simp

lemma ofList_restored_eq_iff {s : String} (h : (readBack s.toList).isSome = true) :
    String.ofList (restored s.toList) = s ↔ hashSafe s.toList = true := by
  rw [← restored_eq_self_iff h]
  constructor
  · intro heq
    simpa using congrArg String.toList heq
  · intro heq
    rw [heq, String.ofList_toList]

lemma rereadAt_eq_self_iff {v : Value} (h : ∀ n, v.reread zs n = some v ↔ v.Restorable zs n) :
    ∀ n, rereadAt zs n v = some v ↔ RestorableAt zs n v
  | 0 => ⟨fun h => (nomatch h), fun h => h.elim⟩
  | n + 1 => h n

mutual

theorem reread_eq_self_iff : ∀ (v : Value), v.WellFormed → v.Inert → ∀ n : Nat,
    v.reread zs n = some v ↔ v.Restorable zs n
  | .null, _, _, _ => by simp [Value.reread]
  | .bool b, _, _, _ => by simp [Value.reread]
  | .int i, _, _, n => by
    rw [Value.reread, Value.Restorable]
    split_ifs with h
    · exact ⟨fun _ => h, fun _ => rfl⟩
    · exact ⟨fun h' => (nomatch h'), fun h' => absurd h' h⟩
  | .date d kind, hwf, _, n => by
    rw [Value.WellFormed] at hwf
    rw [Value.reread, Value.Restorable]
    split_ifs with h
    · refine ⟨fun h' => (nomatch h'), fun ⟨hn, _, hback⟩ => ?_⟩
      have hyear := hback.year
      rw [← zs.current.localIn_of_shown hback.shown] at hyear
      omega
    · rw [← zs.current.makeDate_localIn_iff hwf]
      cases hmade : zs.current.makeDateOf (Clock.ofTimestamp (zs.current.localIn d))
        (d.nanos / 1000000 : Nat) with
      | error message => simp [Except.toOption]
      | ok d' =>
        simp only [Except.toOption, map_some, some.injEq, Value.date.injEq, Except.ok.injEq]
        exact ⟨fun heq => ⟨fun hn => h (.inl hn), heq.2.symm, heq.1⟩,
          fun heq => ⟨heq.2.2, heq.2.1.symm⟩⟩
  | .str s, _, hi, n => by
    rw [Value.Inert] at hi
    rw [Value.reread, Value.Restorable, ← ofList_restored_eq_iff hi]
    simp
  | .array items, hwf, hi, n => by
    rw [Value.WellFormed] at hwf
    rw [Value.Inert] at hi
    rw [Value.reread, Value.Restorable, ← rereadItems_eq_self_iff items hwf hi n]
    simp
  | .struct members, hwf, hi, n => by
    rw [Value.WellFormed] at hwf
    rw [Value.Inert] at hi
    rw [Value.reread,
      Value.Restorable, ← rereadMembers_eq_self_iff (keepsMember members) members hwf.2 hi n]
    constructor
    · intro h
      obtain ⟨ps, hps, heq⟩ := map_eq_some_iff.1 h
      have hlen := length_rereadMembers zs hps
      have hbuild := ofEntries_eq_of_length ps []
      have heq' : ValueMap.ofEntries ps [] = members := by simpa using heq
      rw [heq'] at hbuild
      have hsame : members = ps := by simpa using hbuild.2 (by simp at hbuild ⊢; omega)
      rw [hps, hsame]
    · intro h
      rw [h, map_some, ValueMap.ofEntries_of_distinct (by simpa using hwf.1)]
      rfl
  | .query columns, _, _, n => by simp [Value.reread]

theorem rereadItems_eq_self_iff : ∀ (vs : List Value), ItemsWellFormed vs → ItemsInert vs →
    ∀ n : Nat, rereadItems zs n vs = some vs ↔ ItemsRestorable zs n vs
  | [], _, _, n => by simp [rereadItems, ItemsRestorable]
  | v :: vs, hwf, hi, n => by
    rw [ItemsWellFormed] at hwf
    rw [ItemsInert] at hi
    rw [itemsRestorable_cons, ← rereadAt_eq_self_iff zs (reread_eq_self_iff v hwf.1 hi.1) n,
      ← rereadItems_eq_self_iff vs hwf.2 hi.2 n, rereadItems_cons]
    simp only [bind_eq_some_iff, map_eq_some_iff, cons.injEq]
    constructor
    · rintro ⟨w, hw, ws, hws, rfl, rfl⟩
      exact ⟨hw, hws⟩
    · rintro ⟨hw, hws⟩
      exact ⟨v, hw, vs, hws, rfl, rfl⟩

theorem rereadMembers_eq_self_iff (keep : String → Bool) : ∀ (ms : List (String × Value)),
    MembersWellFormed ms → MembersInert keep ms → ∀ n : Nat, rereadMembers zs n keep ms = some ms ↔
      (∀ m ∈ ms, keep m.1 = true) ∧ MembersRestorable zs n ms
  | [], _, _, n => by simp [rereadMembers, MembersRestorable]
  | (k, v) :: ms, hwf, hi, n => by
    rw [MembersWellFormed] at hwf
    rw [MembersInert] at hi
    rw [membersRestorable_cons, rereadMembers_cons]
    by_cases hkeep : keep k = true
    · rw [if_pos hkeep] at hi ⊢
      rw [← rereadAt_eq_self_iff zs (reread_eq_self_iff v hwf.1 hi.1.2)
        n, ← ofList_restored_eq_iff hi.1.1]
      have htail := rereadMembers_eq_self_iff keep ms hwf.2 hi.2 n
      simp only [bind_eq_some_iff, map_eq_some_iff, cons.injEq, Prod.mk.injEq, forall_mem_cons,
        hkeep, true_and]
      constructor
      · rintro ⟨w, hw, ws, hws, ⟨hk, rfl⟩, rfl⟩
        obtain ⟨h1, h2⟩ := htail.1 hws
        exact ⟨h1, ⟨hk, hw⟩, h2⟩
      · rintro ⟨h1, ⟨hk, hw⟩, h2⟩
        exact ⟨v, hw, ms, htail.2 ⟨h1, h2⟩, ⟨hk, rfl⟩, rfl⟩
    · -- a member that is not written is missing
      rw [if_neg hkeep]
      refine ⟨fun h => ?_, fun h => absurd (h.1 (k, v) mem_cons_self) hkeep⟩
      have := length_rereadMembers zs h
      simp only [length_cons] at this
      omega

end

mutual

theorem inert_of_restorable : ∀ (v : Value) (n : Nat), v.Restorable zs n → v.Inert
  | .null, _, _ => trivial
  | .bool _, _, _ => trivial
  | .int _, _, _ => trivial
  | .date _ _, _, _ => trivial
  | .str _, _, h => isSome_readBack_of_hashSafe h
  | .array items, n, h => itemsInert_of_restorable items n h
  | .struct members, n, h => membersInert_of_restorable _ members n h.2
  | .query _, _, h => h.elim

theorem itemsInert_of_restorable : ∀ (vs : List Value) (n : Nat), ItemsRestorable zs n vs →
    ItemsInert vs
  | [], _, _ => trivial
  | _ :: _, 0, h => h.1.elim
  | v :: vs, n + 1, h => ⟨inert_of_restorable v n h.1, itemsInert_of_restorable vs (n + 1) h.2⟩

theorem membersInert_of_restorable (keep : String → Bool) :
    ∀ (ms : List (String × Value)) (n : Nat),
    MembersRestorable zs n ms → MembersInert keep ms
  | [], _, _ => trivial
  | _ :: _, 0, h => h.1.2.elim
  | (k, v) :: ms, n + 1, h => by
    have hms := membersInert_of_restorable keep ms (n + 1) h.2
    rw [MembersInert]
    split_ifs
    · exact ⟨⟨isSome_readBack_of_hashSafe h.1.1, inert_of_restorable v n h.1.2⟩, hms⟩
    · exact hms

end

/-! ## The whole expression -/

lemma lex_return (text : Text) : lex ("return (".toList ++ text) = .returnWord :: .lParen ::
    lex text := by
  have htext : "return (".toList ++ text = 'r' :: ("eturn".toList ++ ' ' :: '(' :: text) := by
    have h : "return (".toList = 'r' :: ("eturn".toList ++ [' ', '(']) := by decide +kernel
    rw [h, cons_append, append_assoc]
    rfl
  have htake : ("eturn".toList ++ ' ' :: '(' :: text).takeWhile isWordChar = "eturn".toList := by
    rw [takeWhile_append_of_pos (all_eq_true.1 (by decide +kernel))]
    simp [isWordChar]
  have hemit : ∀ rest, emit 'r' rest
      = ([wordToken ('r' :: rest.takeWhile isWordChar)], (rest.takeWhile isWordChar).length) :=
        fun _ => rfl
  have hword : wordToken ('r' :: "eturn".toList) = .returnWord := by decide +kernel
  have hspace : lex (' ' :: '(' :: text) = lex ('(' :: text) := by
    rw [lex, Scanner.rewrite_cons]
    rfl
  have hparen : lex ('(' :: text) = .lParen :: lex text := lex_cons_of_emit rfl
  rw [htext, lex, Scanner.rewrite_cons, hemit, htake, hword, drop_left, ← lex, hspace, hparen]
  rfl

lemma lex_end : lex ");\n".toList = [.rParen, .semicolon] := by decide +kernel

lemma delimited_end : Delimited ");\n".toList := ⟨')', [';', '\n'], by decide +kernel, rfl⟩

lemma evaluate_of_bad {expr : Text} (h : ∃ t ∈ lex ("return (".toList ++ expr ++ ");\n".toList),
      t.Bad) :
    evaluate zs expr = .interpolates := if_pos h

lemma evaluate_of_good {expr : Text}
    (h : ¬∃ t ∈ lex ("return (".toList ++ expr ++ ");\n".toList), t.Bad) : evaluate zs expr
      = match parseReturn zs (lex ("return (".toList ++ expr ++ ");\n".toList)) with
        | some v => .value v
        | none => .other := if_neg h

lemma parseExpression_lParen (n : Nat) (ts : List Token) :
    parseExpression zs (n + 2) (.lParen :: ts) =
    (parseUnary zs (parseExpression zs n) ts).bind fun r =>
      match r.2 with
      | .rParen :: rest => some (r.1, rest)
      | _ => none := rfl

/-- **`serialize` and `evaluate` are inverse, and inert, on exactly the restorable values.** -/
theorem evaluate_serialize_iff (v : Value) (hv : v.WellFormed) :
    evaluate zs (v.serialize zs) = .value v ↔ v.Restorable zs 62 := by
  have hlex := lexes_value zs v
  have htokens : lex ("return (".toList ++ v.serialize zs ++ ");\n".toList)
      = .returnWord :: .lParen :: lex (v.serialize zs ++ ");\n".toList) := by
    rw [append_assoc, lex_return]
  by_cases hi : v.Inert
  · rw [hlex.clean hi _ delimited_end, lex_end] at htokens
    have hgood : ¬∃ t ∈ lex ("return (".toList ++ v.serialize zs ++ ");\n".toList), t.Bad := by
      rw [htokens]
      rintro ⟨t, ht, hbad⟩
      simp at ht
      rcases ht with rfl | rfl | ht | rfl | rfl
      · exact hbad
      · exact hbad
      · exact hlex.good t ht hbad
      · exact hbad
      · exact hbad
    have hread := (reads_value zs v 62).reads [.rParen, .semicolon] (by simp)
    have hparse : parseReturn zs (.returnWord :: .lParen :: (v.tokens zs ++ [.rParen, .semicolon]))
        = v.reread zs 62 := by
      rw [parseReturn, maxExprDepth, parseExpression_lParen, hread]
      cases v.reread zs 62 <;> rfl
    rw [evaluate_of_good zs hgood, htokens, hparse, ← reread_eq_self_iff zs v hv hi 62]
    cases v.reread zs 62 <;> simp
  · -- some text of the value opens an interpolation
    obtain ⟨t, ht, hbad⟩ := hlex.bad hi _ delimited_end
    rw [evaluate_of_bad zs ⟨t, htokens ▸ mem_cons_of_mem _ (mem_cons_of_mem _ ht), hbad⟩]
    exact ⟨(fun h => by cases h), fun h => absurd (inert_of_restorable zs v 62 h) hi⟩

def utcZones : Zones where
  current := utcZone
  utc := utcZone
  gmt := utcZone
  fromStrInsensitive _ := none
  name_ne := by decide
  name_chars c hc := by
    have hall : utcZone.name.all
        (fun c => decide (c ≠ '#' ∧ c ≠ '"' ∧ isWhitespace c = false)) = true := by decide +kernel
    exact of_decide_eq_true (List.all_eq_true.1 hall c hc)
  found := by
    unfold lookupZone
    exact if_pos (.inl (by decide +kernel))

/-- A struct with a quote in a key, a hash at the end of a string, a negative number and a date. -/
def sample : Value :=
  .struct [("say \"hi\"", .array [.str "50#", .int ⟨-3, by decide⟩, .null]),
    ("when", .date ⟨1000000000, 123000000, by decide⟩ .dateTime)]

theorem sample_restored : sample.WellFormed ∧
    (evaluate utcZones (sample.serialize utcZones) = .value sample ↔
      sample.Restorable utcZones 62) ∧
    sample.Restorable utcZones 62 := by
  have hwf : sample.WellFormed :=
    ⟨by decide +kernel, ⟨trivial, trivial, trivial, trivial⟩, rfl, trivial⟩
  have hdate : utcZones.current.ReadsBack ⟨1000000000, 123000000, by decide⟩ :=
    ⟨by decide, by decide, fun h => absurd h (by decide), fun _ _ _ h => nomatch h⟩
  exact ⟨hwf, evaluate_serialize_iff utcZones sample hwf, by decide +kernel,
    ⟨by decide +kernel, (by decide +kernel : hashSafe "50#".toList = true), .inr (by decide),
      trivial, trivial⟩, ⟨by decide +kernel, by decide, rfl, hdate⟩, trivial⟩

theorem hashes_not_restored :
    (evaluate utcZones ((Value.str "#now()#").serialize utcZones) = .interpolates) ∧
      evaluate utcZones ((Value.str "a##b").serialize utcZones) = .value (.str "a#b") := by
  constructor
  · exact evaluate_of_bad utcZones (by decide +kernel)
  · have htokens : lex ("return (".toList ++ (Value.str "a##b").serialize utcZones ++ ");\n".toList)
        = [.returnWord, .lParen, .string ['a', '#', 'b'], .rParen, .semicolon] := by decide +kernel
    have htext : String.ofList ['a', '#', 'b'] = "a#b" := by decide +kernel
    rw [evaluate_of_good utcZones (by decide +kernel), htokens, ← htext]
    rfl

end RustCfml.Serialize
