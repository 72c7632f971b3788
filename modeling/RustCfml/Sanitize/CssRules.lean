import RustCfml.Sanitize.Policy

/-!
# CSS values and shorthands

A CSS property accepts a value by one of its literals or patterns, or as a shorthand: word by word,
each word by one of the properties it stands for, and these may be shorthands again. **A word does
not get shorter on the way**, so nothing but the policy ends the recursion.
-/

namespace RustCfml.Sanitize

open List

structure CssProperty where
  literals : List String
  regexps : List Regex
  shorthands : List String

abbrev CssRules := String → Option CssProperty

/-- The words of a text, the first one being collected. -/
def wordsAfter (word : List Char) : List Char → List (List Char)
  | [] => if word = [] then [] else [word.reverse]
  | c :: cs =>
    if isWhitespace c then
      (if word = [] then [] else [word.reverse]) ++ wordsAfter [] cs
    else wordsAfter (c :: word) cs

def splitWhitespace (value : String) : List String := (wordsAfter [] value.toList).map String.ofList

def CssProperty.acceptsWhole (rule : CssProperty) (value : String) : Bool :=
  rule.literals.any (fun l => eqIgnoreAsciiCase l value) ||
    rule.regexps.any (fun r => r.fullMatch value)

/-- `accepts`, to a depth of calls: no answer where the depth does not do. -/
@[local simp] def accepts (rules : CssRules) : Nat → String → String → Option Bool
  | 0, _, _ => none
  | depth + 1, property, value =>
    match rules property with
    | none => some false
    | some rule =>
      if rule.acceptsWhole value then some true
      else if rule.shorthands.isEmpty then some false
      else if (splitWhitespace value).isEmpty then some false
      else (splitWhitespace value).allM fun part =>
        rule.shorthands.anyM fun target => accepts rules depth target part

def Expands (rules : CssRules) (p q : String) : Prop := ∃ rule, rules p = some rule ∧
    q ∈ rule.shorthands

def AcceptsWhole (rules : CssRules) (p v : String) : Prop :=
  ∃ rule, rules p = some rule ∧ rule.acceptsWhole v = true

/-- As a whole, or each word by a property reached through the shorthands. -/
def Accepted (rules : CssRules) (p v : String) : Prop :=
  AcceptsWhole rules p v ∨ splitWhitespace v ≠ [] ∧
    ∀ w ∈ splitWhitespace v, ∃ q, Relation.TransGen (Expands rules) p q ∧ AcceptsWhole rules q w

/-- To answer the second question, the first has to be answered: the words before were accepted, and
the targets before did not accept this one. -/
def Asks (rules : CssRules) (asked asking : String × String) : Prop :=
  ∃ rule, rules asking.1 = some rule ∧ rule.acceptsWhole asking.2 = false ∧
    (∃ before after, splitWhitespace asking.2 = before ++ asked.2 :: after ∧
      ∀ w ∈ before, ∃ t ∈ rule.shorthands, Accepted rules t w) ∧
    ∃ before after, rule.shorthands = before ++ asked.1 :: after ∧ ∀ t ∈ before,
      ¬ Accepted rules t asked.2

section

/-! ## Short-circuit search with a partial test -/

variable {α : Type} {f : α → Option Bool} {Q : α → Prop}
    (hf : ∀ x r, f x = some r → (r = true ↔ Q x))
include hf

lemma anyM_exact : ∀ {l : List α} {r : Bool}, l.anyM f = some r → (r = true ↔ ∃ x ∈ l, Q x) := by
  intro l
  induction l with
  | nil => simp [anyM]
  | cons x l ih =>
    intro r h
    cases hx : f x with
    | none => simp [anyM, hx] at h
    | some b =>
      have hq := hf x b hx
      cases b with
      | false => simpa [anyM, hx, ← hq] using ih (by simpa [anyM, hx] using h)
      | true =>
        obtain rfl : r = true := by simpa [anyM, hx] using h.symm
        simp [← hq]

lemma isSome_anyM (l : List α) : (l.anyM f).isSome ↔ ∀ a x b, l = a ++ x :: b → (∀ y ∈ a, ¬ Q y) →
    (f x).isSome := by
  induction l with
  | nil => simp [anyM]
  | cons x l ih =>
    cases hx : f x with
    | none =>
      refine iff_of_false (by simp [anyM, hx]) fun h => ?_
      simpa [hx] using h [] x l rfl (by simp)
    | some b =>
      have hq := hf x b hx
      cases b with
      | true =>
        refine iff_of_true (by simp [anyM, hx]) fun a y b' he ha => ?_
        rcases append_eq_cons_iff.1 he.symm with ⟨rfl, h⟩ | ⟨a', rfl, h⟩
        · simp_all
        · exact absurd (hq.1 rfl) (ha x (by simp))
      | false =>
        have hn : ¬ Q x := fun h => by simpa using hq.2 h
        have : (x :: l).anyM f = l.anyM f := by simp [anyM, hx]
        rw [this, ih]
        constructor
        · intro h a y b' he ha
          rcases append_eq_cons_iff.1 he.symm with ⟨rfl, h'⟩ | ⟨a', rfl, h'⟩
          · simp_all
          · exact h a' y b' h' fun z hz => ha z (mem_cons_of_mem _ hz)
        · intro h a y b' he ha
          refine h (x :: a) y b' (by rw [he, cons_append]) ?_
          simpa [hn] using ha

lemma not_exact (x : α) (r : Bool) (h : (f x).map not = some r) : r = true ↔ ¬ Q x := by
  obtain ⟨b, hb, rfl⟩ := Option.map_eq_some_iff.1 h
  simp [← hf x b hb]

lemma allM_exact {l : List α} {r : Bool} (h : l.allM f = some r) : r = true ↔ ∀ x ∈ l, Q x := by
  rw [allM_eq_not_anyM_not] at h
  obtain ⟨b, hb, rfl⟩ := Option.map_eq_some_iff.1 h
  simpa using not_congr (anyM_exact (not_exact hf) hb)

lemma isSome_allM (l : List α) : (l.allM f).isSome ↔ ∀ a x b, l = a ++ x :: b → (∀ y ∈ a, Q y) →
    (f x).isSome := by
  simpa [allM_eq_not_anyM_not] using isSome_anyM (not_exact hf) l

end

variable {n : Nat} {cs : List Char} {v w p : String}

lemma wordsAfter_of_not (word : List Char) (h : ∀ c ∈ cs, isWhitespace c = false)
    (hne : word.reverse ++ cs ≠ []) :
    wordsAfter word cs = [word.reverse ++ cs] := by
  induction cs generalizing word with
  | nil =>
    have : word ≠ [] := by simpa using hne
    simp [wordsAfter, this]
  | cons c cs ih =>
    rw [wordsAfter, h c (by simp), if_neg (by simp),
      ih (c :: word) (fun d hd => h d (by simp [hd])) (by simp)]
    simp

lemma mem_wordsAfter {w : List Char} : ∀ {word : List Char}, (∀ c ∈ word, isWhitespace c = false) →
    w ∈ wordsAfter word cs → w ≠ [] ∧ ∀ c ∈ w, isWhitespace c = false := by
  have single : ∀ {word : List Char}, (∀ c ∈ word, isWhitespace c = false) →
      (w ∈ if word = [] then [] else [word.reverse]) → w ≠ [] ∧ ∀ c ∈ w,
          isWhitespace c = false := by
    intro word h hw
    split at hw
    · simp at hw
    · obtain rfl := mem_singleton.1 hw
      simp_all
  induction cs with
  | nil => exact single
  | cons c cs ih =>
    intro word h hw
    rw [wordsAfter] at hw
    split at hw
    next =>
      rcases mem_append.1 hw with hw | hw
      · exact single h hw
      · exact ih (by simp) hw
    next hc => exact ih (by simp_all) hw

lemma splitWhitespace_word (h : w ∈ splitWhitespace v) : splitWhitespace w = [w] := by
  obtain ⟨cs, hcs, rfl⟩ := mem_map.1 h
  obtain ⟨hne, hw⟩ := mem_wordsAfter (by simp) hcs
  simp [splitWhitespace, wordsAfter_of_not [] hw (by simpa using hne)]

lemma accepted_word {rules : CssRules} (hw : splitWhitespace w = [w]) :
    Accepted rules p w ↔ ∃ q, Relation.ReflTransGen (Expands rules) p q ∧
    AcceptsWhole rules q w := by
  simp [Accepted, hw, forall_eq]
  constructor
  · rintro (h | ⟨q, hq, h⟩)
    · exact ⟨p, .refl, h⟩
    · exact ⟨q, hq.to_reflTransGen, h⟩
  · rintro ⟨q, hq, h⟩
    rcases Relation.reflTransGen_iff_eq_or_transGen.1 hq with rfl | hq
    · exact .inl h
    · exact .inr ⟨q, hq, h⟩

lemma accepted_iff {rules : CssRules} {rule : CssProperty} (hp : rules p = some rule) :
    Accepted rules p v ↔ rule.acceptsWhole v = true ∨ splitWhitespace v ≠ [] ∧
      ∀ w ∈ splitWhitespace v, ∃ t ∈ rule.shorthands, Accepted rules t w := by
  have hwhole : AcceptsWhole rules p v ↔ rule.acceptsWhole v = true := by simp [AcceptsWhole, hp]
  have hexp : ∀ t, Expands rules p t ↔ t ∈ rule.shorthands := by simp [Expands, hp]
  rw [Accepted, hwhole]
  refine or_congr_right (and_congr_right fun _ => forall₂_congr fun w hw => ?_)
  simp only [accepted_word (splitWhitespace_word hw), Relation.TransGen.head'_iff, hexp]
  exact ⟨fun ⟨q, ⟨t, ht, hq⟩, h⟩ => ⟨t, ht, q, hq, h⟩, fun ⟨t, ht, q, hq, h⟩ => ⟨q, ⟨t, ht, hq⟩, h⟩⟩

variable (rules : CssRules)

lemma accepts_exact : ∀ {p v : String} {r : Bool},
    accepts rules n p v = some r → (r = true ↔ Accepted rules p v) := by
  induction n with
  | zero => simp
  | succ n ih =>
    intro p v r h
    cases hp : rules p with
    | none =>
      obtain rfl : r = false := by simpa [hp] using h.symm
      have hno : ∀ q, ¬ Relation.TransGen (Expands rules) p q := fun q hq => by
        obtain ⟨t, ⟨rule, hr, -⟩, -⟩ := Relation.TransGen.head'_iff.1 hq
        simp [hp] at hr
      have hne := exists_mem_of_ne_nil (splitWhitespace v)
      simp only [Accepted, AcceptsWhole, hp, hno]
      simpa using hne
    | some rule =>
      rw [accepted_iff hp]
      simp only [accepts, hp] at h
      split at h
      next hw => simpa [hw] using h.symm
      next hw =>
        simp only [hw, Bool.false_eq_true, false_or]
        split at h
        next hs =>
          have hne := exists_mem_of_ne_nil (splitWhitespace v)
          obtain rfl : r = false := by simpa using h.symm
          simpa [List.isEmpty_iff.1 hs] using hne
        next hs =>
          split at h
          next he => simpa [List.isEmpty_iff.1 he] using h.symm
          next he =>
            have := allM_exact (fun w r hr => anyM_exact (fun t r hr => ih hr) hr) h
            rw [this]
            simp_all

/-! ## When there is an answer -/

lemma isSome_accepts_succ (n : Nat) (p v : String) : (accepts rules (n + 1) p v).isSome ↔
      ∀ q, Asks rules q (p, v) → (accepts rules n q.1 q.2).isSome := by
  cases hp : rules p with
  | none => simp [Asks, hp]
  | some rule =>
    simp only [accepts, hp, Asks, Option.some.injEq, exists_eq_left', Prod.forall]
    split
    next hw => simp [hw]
    next hw =>
      split
      next hs => simp [List.isEmpty_iff.1 hs]
      next hs =>
        split
        next he => simp [List.isEmpty_iff.1 he]
        next he =>
          have hany := fun w => isSome_anyM (l := rule.shorthands)
            (f := fun t => accepts rules n t w) fun t r hr => accepts_exact rules hr
          rw [isSome_allM fun w r hr => anyM_exact (fun t r hr => accepts_exact rules hr) hr]
          simp only [hany]
          constructor
          · rintro h t w ⟨-, ⟨a, b, hv, ha⟩, a', b', hs', ha'⟩
            exact h a w b hv ha a' t b' hs' ha'
          · intro h a w b hv ha a' t b' hs' ha'
            exact h t w ⟨by simpa using hw, ⟨a, b, hv, ha⟩, a', b', hs', ha'⟩

lemma isSome_accepts_mono {m : Nat} (hnm : n ≤ m) :
    ∀ {p v : String}, (accepts rules n p v).isSome → (accepts rules m p v).isSome := by
  induction n generalizing m with
  | zero => simp
  | succ n ih =>
    obtain ⟨m, rfl⟩ : ∃ k, m = k + 1 := ⟨m - 1, by omega⟩
    intro p v
    simp only [isSome_accepts_succ]
    exact fun h q hq => ih (by omega) (h q hq)

lemma acc_of_isSome : ∀ {q : String × String}, (accepts rules n q.1 q.2).isSome →
    Acc (Asks rules) q := by
  induction n with
  | zero => simp
  | succ n ih => exact fun h => ⟨_, fun q hq => ih ((isSome_accepts_succ rules n _ _).1 h q hq)⟩

lemma finite_asks (q : String × String) : {a | Asks rules a q}.Finite := by
  cases hp : rules q.1 with
  | none => simp [Asks, hp]
  | some rule =>
    refine ((rule.shorthands.finite_toSet).prod (splitWhitespace q.2).finite_toSet).subset ?_
    rintro ⟨t, w⟩ ⟨rule', hr, -, ⟨a, b, hv, -⟩, a', b', hs, -⟩
    obtain rfl : rule = rule' := by simpa [hp] using hr
    simp_all

lemma isSome_of_acc {q : String × String} (h : Acc (Asks rules) q) :
    ∃ n, (accepts rules n q.1 q.2).isSome := by
  induction h with
  | intro q _ ih =>
    -- the questions are finitely many, so one depth does for all of them
    have hall : ∀ᶠ n in Filter.atTop, ∀ a ∈ {a | Asks rules a q},
        (accepts rules n a.1 a.2).isSome := by
      refine (Filter.eventually_all_finite (finite_asks rules q)).2 fun a ha => ?_
      obtain ⟨n, hn⟩ := ih a ha
      exact Filter.eventually_atTop.2 ⟨n, fun m hm => isSome_accepts_mono rules hm hn⟩
    obtain ⟨n, hn⟩ := hall.exists
    exact ⟨n + 1, (isSome_accepts_succ rules n _ _).2 hn⟩

/-- **A value is judged, and rightly, exactly when** no endless chain of shorthands starts from its
property. -/
theorem accepts_exact_iff (property value : String) :
    (∃ depth r, accepts rules depth property value = some r ∧
        (r = true ↔ Accepted rules property value)) ↔ Acc (Asks rules) (property, value) := by
  constructor
  · rintro ⟨n, r, h, -⟩
    exact acc_of_isSome rules (n := n) (by simp [h])
  · intro h
    obtain ⟨n, hn⟩ := isSome_of_acc rules h
    obtain ⟨r, hr⟩ := Option.isSome_iff_exists.1 hn
    exact ⟨n, r, hr, accepts_exact rules hr⟩

def selfShorthand : CssRules := fun p => if p = "font" then some ⟨[], [], ["font"]⟩ else none

/-- It asks itself without end. -/
theorem selfShorthand_diverges : ¬ ∃ depth r, accepts selfShorthand depth "font" "bold" = some r ∧
      (r = true ↔ Accepted selfShorthand "font" "bold") := by
  have hw : splitWhitespace "bold" = ["bold"] := by decide
  have hnone : ∀ n, accepts selfShorthand n "font" "bold" = none := by
    intro n
    induction n with
    | zero => rfl
    | succ n ih => simp [selfShorthand, CssProperty.acceptsWhole, hw, List.allM, List.anyM, ih]
  rintro ⟨n, r, h, -⟩
  simp [hnone] at h

end RustCfml.Sanitize
