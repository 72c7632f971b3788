import RustCfml.Sanitize.Policy

/-!
# What the edits do to the attributes of one element

The edits are decided attribute by attribute and applied later **by local name**: each one goes to
the first attribute that is left with that name.
-/

namespace RustCfml.Sanitize

open List

def applyEdit (attrs : List Attribute) (edit : AttributeEdit) : List Attribute :=
  match (attrs.map Prod.fst).find? fun k => eqIgnoreAsciiCase k.localName edit.1 with
  | none => attrs
  | some key =>
    match edit.2 with
    | some value => attrs.map fun a => if a.1 = key then (key, value) else a
    | none => attrs.filter fun a => a.1 ≠ key

def applyEdits (attrs : List Attribute) (edits : List AttributeEdit) : List Attribute :=
  edits.foldl applyEdit attrs

def editFirst (n : List Char) (value : Option String) : List Attribute → List Attribute
  | [] => []
  | a :: as =>
    if a.name = n then value.elim as fun v => (a.1, v) :: as else a :: editFirst n value as

variable {as : List Attribute} {n : List Char} {a : Attribute}

variable {key : QualName} {edits : List AttributeEdit}

lemma map_of_key_notMem (h : key ∉ as.map Prod.fst)
    (value : String) : (as.map fun a => if a.1 = key then (key, value) else a) = as := by
  rw [map_congr_left (g := id), map_id]
  intro a ha
  have hne : a.1 ≠ key := fun he => h (he ▸ mem_map_of_mem ha)
  rw [if_neg hne, id]

lemma filter_of_key_notMem (h : key ∉ as.map Prod.fst) : as.filter (fun a => a.1 ≠ key) = as := by
  rw [filter_eq_self]
  intro a ha
  have hne : a.1 ≠ key := fun he => h (he ▸ mem_map_of_mem ha)
  simpa using hne

lemma applyEdit_eq_editFirst {attrs : List Attribute} (h : (attrs.map Prod.fst).Nodup)
    (edit : AttributeEdit) : applyEdit attrs edit = editFirst (asciiFold edit.1) edit.2 attrs := by
  induction attrs with
  | nil => rfl
  | cons a as ih =>
    rw [map_cons, nodup_cons] at h
    by_cases hn : a.name = asciiFold edit.1
    · -- the first attribute is the one
      have hfind : ((a :: as).map Prod.fst).find?
          (fun k => eqIgnoreAsciiCase k.localName edit.1) = some a.1 := by
        rw [map_cons]
        exact find?_cons_of_pos (eqIgnoreAsciiCase_iff.2 hn)
      rw [applyEdit, hfind, editFirst, if_pos hn]
      cases edit.2 with
      | none =>
        simp only [filter_cons, ne_eq, not_true_eq_false, decide_false]
        exact filter_of_key_notMem h.1
      | some value =>
        simp only [map_cons, if_true, Option.elim_some]
        rw [map_of_key_notMem h.1]
    · have hfind : ((a :: as).map Prod.fst).find?
          (fun k => eqIgnoreAsciiCase k.localName edit.1)
            = (as.map Prod.fst).find? fun k => eqIgnoreAsciiCase k.localName edit.1 := by
        rw [map_cons]
        exact find?_cons_of_neg fun hf => hn (eqIgnoreAsciiCase_iff.1 hf)
      rw [editFirst, if_neg hn, ← ih h.2, applyEdit, applyEdit, hfind]
      split
      next => rfl
      next key hkey =>
        -- the key found is not that of the first attribute
        have hmem : key ∈ as.map Prod.fst := mem_of_find?_eq_some hkey
        have hne : a.1 ≠ key := fun he => h.1 (he ▸ hmem)
        cases edit.2 with
        | none | some value => simp [hne]

lemma nodup_editFirst (h : (as.map Prod.fst).Nodup) (n : List Char)
    (value : Option String) : ((editFirst n value as).map Prod.fst).Nodup := by
  have hsub : ((editFirst n value as).map Prod.fst).Sublist (as.map Prod.fst) := by
    clear h
    induction as with
    | nil => exact Sublist.refl _
    | cons a as ih =>
      rw [editFirst]
      split
      · cases value with
        | none => exact sublist_cons_self _ _
        | some v => exact Sublist.refl _
      · exact ih.cons_cons a.1
  exact hsub.nodup h

lemma nodup_applyEdits (h : (as.map Prod.fst).Nodup)
    (edits : List AttributeEdit) : ((applyEdits as edits).map Prod.fst).Nodup := by
  induction edits generalizing as with
  | nil => exact h
  | cons edit edits ih =>
    refine ih ?_
    rw [applyEdit_eq_editFirst h]
    exact nodup_editFirst h _ _

def Element.edit (e : Element) (edits : List AttributeEdit) : Element :=
  ⟨e.name, applyEdits e.attrs edits, nodup_applyEdits e.distinct edits⟩

/-! ## One name at a time -/

def named (n : List Char) (as : List Attribute) : List Attribute := as.filter fun a => a.name = n

lemma mem_named : a ∈ named n as ↔ a ∈ as ∧ a.name = n := by
  simp [named]

lemma named_cons_self (h : a.name = n) (as : List Attribute) :
    named n (a :: as) = a :: named n as := by
  simp [named, h]

lemma named_cons_ne (h : a.name ≠ n) (as : List Attribute) : named n (a :: as) = named n as := by
  simp [named, h]

lemma named_editFirst (n m : List Char) (value : Option String) (as : List Attribute) :
    named n (editFirst m value as) =
      if m = n then editFirst n value (named n as) else named n as := by
  induction as with
  | nil => simp [editFirst, named]
  | cons a as ih =>
    rw [editFirst]
    by_cases ha : a.name = m
    · rw [if_pos ha]
      by_cases hm : m = n
      · have hn : a.name = n := ha.trans hm
        rw [if_pos hm, named_cons_self hn, editFirst, if_pos hn]
        cases value with
        | none => rfl
        | some v => exact named_cons_self (a := (a.1, v)) hn as
      · have hn : a.name ≠ n := fun he => hm (ha.symm.trans he)
        rw [if_neg hm, named_cons_ne hn]
        cases value with
        | none => rfl
        | some v => exact named_cons_ne (a := (a.1, v)) hn as
    · rw [if_neg ha]
      by_cases hn : a.name = n
      · have hm : m ≠ n := fun he => ha (hn.trans he.symm)
        rw [named_cons_self hn, ih, if_neg hm, if_neg hm, named_cons_self hn]
      · rw [named_cons_ne hn, ih, named_cons_ne hn]

lemma named_applyEdits (h : (as.map Prod.fst).Nodup) (n : List Char) (edits : List AttributeEdit) :
    named n (applyEdits as edits) =
    (edits.filter fun e => asciiFold e.1 = n).foldl (fun as e => editFirst n e.2 as)
        (named n as) := by
  induction edits generalizing as with
  | nil => rfl
  | cons e edits ih =>
    rw [applyEdits, foldl_cons, applyEdit_eq_editFirst h]
    have ih := ih (nodup_editFirst h (asciiFold e.1) e.2)
    rw [applyEdits] at ih
    rw [ih, named_editFirst]
    by_cases he : asciiFold e.1 = n
    · simp [he]
    · simp [he]

lemma foldl_remove (hn : ∀ a ∈ as, a.name = n) (hnone : ∀ e ∈ edits, e.2 = none) :
    edits.foldl (fun as e => editFirst n e.2 as) as = as.drop edits.length := by
  induction edits generalizing as with
  | nil => rfl
  | cons e edits ih =>
    rw [forall_mem_cons] at hnone
    rw [foldl_cons, hnone.1]
    cases as with
    | nil => rw [editFirst, ih (by simp) hnone.2, drop_nil, drop_nil]
    | cons a as =>
      rw [forall_mem_cons] at hn
      rw [editFirst, if_pos hn.1, Option.elim_none, ih hn.2 hnone.2, length_cons, drop_succ_cons]

lemma foldl_replace (as : List Attribute) (hn : a.name = n) (hne : edits ≠ []) {p : String → Prop}
    (hsome : ∀ e ∈ edits, ∃ v, e.2 = some v ∧ p v) :
    ∃ v, p v ∧ edits.foldl (fun as e => editFirst n e.2 as) (a :: as) = (a.1, v) :: as := by
  induction edits generalizing a with
  | nil => exact absurd rfl hne
  | cons e edits ih =>
    rw [forall_mem_cons] at hsome
    obtain ⟨⟨v, hv, hp⟩, hrest⟩ := hsome
    rw [foldl_cons, hv, editFirst, if_pos hn, Option.elim_some]
    by_cases hnil : edits = []
    · exact ⟨v, hp, by rw [hnil, foldl_nil]⟩
    · exact ih (a := (a.1, v)) hn hnil hrest

lemma forall_mem_drop_countP_iff {α : Type} (p : α → Bool) (as : List α) :
    (∀ a ∈ as.drop (as.countP fun a => !p a), p a = true) ↔ as.Pairwise fun a b => p a = true →
    p b = true := by
  induction as with
  | nil => simp
  | cons a as ih =>
    rw [pairwise_cons]
    by_cases ha : p a = true
    · rw [countP_cons_of_neg (p := fun a => !p a) (by simp [ha])]
      constructor
      · intro h
        -- a failing attribute behind `a` would still be there
        have hall : as.countP (fun a => !p a) = 0 := by
          by_contra hpos
          obtain ⟨k, hk⟩ := Nat.exists_eq_succ_of_ne_zero hpos
          rw [hk, drop_succ_cons] at h
          have hzero : (as.drop k).countP (fun a => !p a) = 0 :=
            countP_eq_zero.2 fun b hb => by simp [h b hb]
          have hsplit : (as.take k ++ as.drop k).countP (fun a => !p a)
              = (as.take k).countP (fun a => !p a) + (as.drop k).countP fun a => !p a :=
                countP_append
          rw [take_append_drop, hzero] at hsplit
          have hle : (as.take k).countP (fun a => !p a) ≤ k :=
            Nat.le_trans countP_le_length (length_take_le k as)
          omega
        have hpass : ∀ b ∈ as, p b = true := fun b hb => by simpa using countP_eq_zero.1 hall b hb
        exact ⟨fun b hb _ => hpass b hb, pairwise_of_forall_mem_list fun _ _ b hb _ => hpass b hb⟩
      · rintro ⟨hfirst, -⟩ b hb
        rcases mem_cons.1 (mem_of_mem_drop hb) with rfl | hmem
        · exact ha
        · exact hfirst b hmem ha
    · rw [countP_cons_of_pos (p := fun a => !p a) (by simp [ha]), drop_succ_cons, ih]
      exact ⟨fun h => ⟨fun _ _ h' => absurd h' ha, h⟩, And.right⟩

def StartsOn (n : List Char) : Prop := "on".toList <+: n

instance (n : List Char) : Decidable (StartsOn n) := by
  unfold StartsOn
  infer_instance

namespace Policy

variable (policy : Policy) (tag : List Char)

def Acceptable (a : Attribute) : Prop :=
  (a.name = "style".toList ∧ ∃ s, a.2 = policy.filterDeclarations s) ∨
    ∃ rule, policy.attributeRule tag a.name = some rule ∧ rule.accepts a.2 = true

def CleanAttrs (as : List Attribute) : Prop := ∀ a ∈ as, policy.Acceptable tag a ∧ ¬StartsOn a.name

/-- The element keeps the attribute, as it is or with another value. -/
def Stays (a : Attribute) : Prop :=
  match policy.verdict tag a with
  | .leave => True
  | .edit (some _) => True
  | _ => False

/-- No attribute that stays is followed by one of its name that may not stay as it is, and none that
stays is called `on`. -/
def Orderly (as : List Attribute) : Prop :=
  (as.Pairwise fun a b => a.name = b.name → policy.Stays tag a → policy.Acceptable tag b) ∧
    ∀ a ∈ as, a.name = "on".toList → ¬policy.Stays tag a

variable {policy tag}

def editOf (policy : Policy) (tag : List Char) (a : Attribute) : Option AttributeEdit :=
  match policy.verdict tag a with
  | .edit value => some (a.1.localName, value)
  | _ => none

variable {as : List Attribute} {n : List Char} {a : Attribute}

variable {edits : List AttributeEdit} {rule : AttributeRule}

lemma attributeEdits_eq_ok (h : policy.attributeEdits tag as = .ok edits) :
    edits = as.filterMap (policy.editOf tag) ∧ ∀ a ∈ as, ∀ d, policy.verdict tag a ≠ .refuse d := by
  induction as generalizing edits with
  | nil =>
    obtain rfl := Except.ok.inj h
    exact ⟨rfl, by simp⟩
  | cons a as ih =>
    rw [attributeEdits] at h
    split at h
    next hv =>
      obtain ⟨rfl, hno⟩ := ih h
      refine ⟨by simp [editOf, hv], forall_mem_cons.2 ⟨fun d => by simp [hv], hno⟩⟩
    next value hv =>
      cases hrest : policy.attributeEdits tag as with
      | error d => rw [hrest] at h; exact absurd h (by simp [Except.map])
      | ok rest =>
        rw [hrest] at h
        obtain rfl := Except.ok.inj h
        obtain ⟨rfl, hno⟩ := ih hrest
        refine ⟨by simp [editOf, hv], forall_mem_cons.2 ⟨fun d => by simp [hv], hno⟩⟩
    next => exact absurd h (by simp)

lemma attributeEdits_ne_keep : policy.attributeEdits tag as ≠ .error .keep := by
  induction as with
  | nil => simp [attributeEdits]
  | cons a as ih =>
    rw [attributeEdits]
    split
    next => exact ih
    next value hv =>
      cases hrest : policy.attributeEdits tag as with
      | ok edits => simp [Except.map]
      | error d => simpa [Except.map, hrest] using ih
    next d hv =>
      rintro h
      rw [Except.error.inj h, verdict] at hv
      split at hv
      next => exact absurd hv (by simp)
      next =>
        split at hv
        next => exact absurd hv (by simp)
        next =>
          split at hv
          next => exact absurd hv (by simp)
          next =>
            split at hv
            next => exact absurd hv (by simp)
            next => split at hv <;> exact absurd hv (by simp)

lemma filter_editOf (n : List Char) (as : List Attribute) :
    (as.filterMap (policy.editOf tag)).filter (fun e => asciiFold e.1 = n)
      = (named n as).filterMap (policy.editOf tag) := by
  induction as with
  | nil => rfl
  | cons a as ih =>
    have hname : ∀ e, policy.editOf tag a = some e → asciiFold e.1 = a.name := by
      intro e he
      unfold editOf at he
      split at he
      next => exact Option.some.inj he ▸ rfl
      next => exact absurd he (by simp)
    cases he : policy.editOf tag a with
    | none =>
      rw [filterMap_cons_none he, ih]
      by_cases hn : a.name = n
      · rw [named_cons_self hn, filterMap_cons_none he]
      · rw [named_cons_ne hn]
    | some e =>
      rw [filterMap_cons_some he]
      by_cases hn : a.name = n
      · rw [named_cons_self hn, filterMap_cons_some he, filter_cons_of_pos, ih]
        simpa using (hname e he).trans hn
      · rw [named_cons_ne hn, filter_cons_of_neg, ih]
        simpa using fun h => hn ((hname e he).symm.trans h)

def left (policy : Policy) (tag n : List Char) (as : List Attribute) : List Attribute :=
  (as.filterMap (policy.editOf tag)).foldl (fun as e => editFirst n e.2 as) as

lemma left_of_refused {p : Attribute → Bool} (hn : ∀ a ∈ as, a.name = n)
    (hverdict : ∀ a ∈ as, policy.verdict tag a = if p a then .leave else .edit none) :
    policy.left tag n as = as.drop (as.countP fun a => !p a) := by
  have hedit : ∀ a ∈ as, policy.editOf tag a = if p a then none else
      some (a.1.localName, none) := by
    intro a ha
    rw [editOf, hverdict a ha]
    cases p a <;> rfl
  have hnone : ∀ e ∈ as.filterMap (policy.editOf tag), e.2 = none := by
    intro e he
    obtain ⟨a, ha, hae⟩ := mem_filterMap.1 he
    rw [hedit a ha] at hae
    split at hae
    next => exact absurd hae (by simp)
    next => exact Option.some.inj hae ▸ rfl
  rw [left, foldl_remove hn hnone, length_filterMap_eq_countP]
  congr 1
  refine countP_congr fun a ha => ?_
  rw [hedit a ha]
  cases p a <;> simp

lemma left_of_gone (hn : ∀ a ∈ as, a.name = n)
    (hgone : ∀ a ∈ as, policy.verdict tag a = .edit none) : policy.left tag n as = [] := by
  rw [left_of_refused (p := fun _ => false) hn (by simpa using hgone)]
  simp

/-- Every value goes to the first attribute, the others keep theirs. -/
lemma left_of_style (hn : a.name = n)
    (hverdict : ∀ b ∈ a :: as,
      policy.verdict tag b = .edit (some (policy.filterDeclarations b.2))) :
    ∃ v, (∃ s, v = policy.filterDeclarations s) ∧ policy.left tag n (a :: as) = (a.1, v) :: as := by
  have hedits : (a :: as).filterMap (policy.editOf tag)
      = (a :: as).map fun b => (b.1.localName, some (policy.filterDeclarations b.2)) := by
    rw [← filterMap_eq_map, filterMap_congr]
    intro b hb
    simp [editOf, hverdict b hb]
  have hsome : ∀ e ∈ (a :: as).filterMap (policy.editOf tag),
      ∃ v, e.2 = some v ∧ ∃ s, v = policy.filterDeclarations s := by
    rw [hedits]
    intro e he
    obtain ⟨b, -, rfl⟩ := mem_map.1 he
    exact ⟨_, rfl, b.2, rfl⟩
  exact foldl_replace as hn (by simp [hedits]) hsome

lemma verdict_gone (h : isEventHandler a.name = true ∨ policy.attributeRule tag a.name = none) :
    policy.verdict tag a = .edit none := by
  rw [verdict]
  split
  next => rfl
  next hev =>
    have hrule := h.resolve_left hev
    rw [if_neg, hrule]
    rintro ⟨hstyle, hsome⟩
    rw [← hstyle, hrule] at hsome
    exact absurd hsome (by simp)

lemma verdict_style (hstyle : a.name = "style".toList)
    (hrule : policy.attributeRule tag a.name = some rule) :
    policy.verdict tag a = .edit (some (policy.filterDeclarations a.2)) := by
  rw [verdict, hstyle, if_neg (by decide), if_pos ⟨rfl, by rw [← hstyle, hrule]; rfl⟩]

lemma verdict_rule (hev : isEventHandler a.name = false) (hstyle : a.name ≠ "style".toList)
    (hrule : policy.attributeRule tag a.name = some rule)
    (hno : ∀ d, policy.verdict tag a ≠ .refuse d) :
    policy.verdict tag a = if rule.accepts a.2 then .leave else .edit none := by
  rw [verdict, if_neg (by simp [hev]), if_neg fun h => hstyle h.1, hrule] at hno ⊢
  dsimp only at hno ⊢
  split
  next => rfl
  next hacc =>
    rw [if_neg hacc] at hno
    cases hon : rule.onInvalid with
    | removeAttribute => rfl
    | removeTag => exact absurd (by rw [hon]) (hno .drop)
    | filterTag => exact absurd (by rw [hon]) (hno .unwrap)

lemma startsOn_cases (h : StartsOn n) : isEventHandler n = true ∨ n = "on".toList := by
  obtain ⟨rest, rfl⟩ := h
  cases rest with
  | nil => exact Or.inr rfl
  | cons c cs => exact Or.inl rfl

lemma cleanAttrs_left_iff (hn : ∀ a ∈ as, a.name = n)
    (hno : ∀ a ∈ as, ∀ d, policy.verdict tag a ≠ .refuse d) :
    policy.CleanAttrs tag (policy.left tag n as) ↔
      (as.Pairwise fun a b => policy.Stays tag a → policy.Acceptable tag b) ∧
        (n = "on".toList → ∀ a ∈ as, ¬policy.Stays tag a) := by
  by_cases hgone : isEventHandler n = true ∨ policy.attributeRule tag n = none
  · have hverdict : ∀ a ∈ as, policy.verdict tag a = .edit none :=
      fun a ha => verdict_gone (by rw [hn a ha]; exact hgone)
    have hstays : ∀ a ∈ as, ¬policy.Stays tag a := fun a ha => by simp [Stays, hverdict a ha]
    rw [left_of_gone hn hverdict]
    refine ⟨fun _ => ⟨?_, fun _ => hstays⟩, fun _ => by simp [CleanAttrs]⟩
    exact pairwise_of_forall_mem_list fun a ha _ _ hs => absurd hs (hstays a ha)
  rw [not_or, Bool.not_eq_true, ← ne_eq, Option.ne_none_iff_exists'] at hgone
  obtain ⟨hev, rule, hrule⟩ := hgone
  by_cases hstyle : n = "style".toList
  · subst hstyle
    have hverdict : ∀ a ∈ as, policy.verdict tag a = .edit (some (policy.filterDeclarations a.2)) :=
      fun a ha => verdict_style (hn a ha) (by rw [hn a ha]; exact hrule)
    have hstays : ∀ a ∈ as, policy.Stays tag a := fun a ha => by simp [Stays, hverdict a ha]
    cases as with
    | nil => simp [left, CleanAttrs]
    | cons a as =>
      obtain ⟨v, hv, hleft⟩ := left_of_style (hn a mem_cons_self) hverdict
      have hnotOn : ∀ b : Attribute, b.name = "style".toList → ¬StartsOn b.name :=
        fun b hb => hb ▸ by decide
      rw [forall_mem_cons] at hn
      rw [hleft, CleanAttrs, forall_mem_cons, pairwise_cons]
      constructor
      · rintro ⟨-, hrest⟩
        have hok : ∀ b ∈ as, policy.Acceptable tag b := fun b hb => (hrest b hb).1
        refine ⟨⟨fun b hb _ => hok b hb, ?_⟩, fun h => absurd h (by decide)⟩
        exact pairwise_of_forall_mem_list fun _ _ b hb _ => hok b hb
      · rintro ⟨⟨hfirst, -⟩, -⟩
        refine ⟨⟨Or.inl ⟨hn.1, hv⟩, hnotOn (a.1, v) hn.1⟩, fun b hb => ?_⟩
        exact ⟨hfirst b hb (hstays a mem_cons_self), hnotOn b (hn.2 b hb)⟩
  · have hverdict : ∀ a ∈ as, policy.verdict tag a = if rule.accepts a.2 then .leave else
      .edit none :=
      fun a ha => verdict_rule (by rw [hn a ha]; exact hev) (by rw [hn a ha]; exact hstyle)
        (by rw [hn a ha]; exact hrule) (hno a ha)
    have hstays : ∀ a ∈ as, (policy.Stays tag a ↔ rule.accepts a.2 = true) := by
      intro a ha
      rw [Stays, hverdict a ha]
      cases rule.accepts a.2 <;> simp
    have hacc : ∀ a ∈ as, (policy.Acceptable tag a ↔ rule.accepts a.2 = true) := by
      intro a ha
      rw [Acceptable, hn a ha, hrule]
      constructor
      · rintro (⟨h, -⟩ | ⟨r, hr, hok⟩)
        · exact absurd h hstyle
        · exact Option.some.inj hr ▸ hok
      · exact fun hok => Or.inr ⟨rule, rfl, hok⟩
    have hordered := forall_mem_drop_countP_iff (fun a : Attribute => rule.accepts a.2) as
    rw [left_of_refused hn hverdict, CleanAttrs]
    by_cases hon : n = "on".toList
    · -- nothing may be left
      have hstarts : ∀ a ∈ as, StartsOn a.name := fun a ha => by rw [hn a ha, hon]; decide
      constructor
      · intro hclean
        have hall : ∀ a ∈ as, rule.accepts a.2 = false := by
          have hnil : as.drop (as.countP fun a => !rule.accepts a.2) = [] :=
            eq_nil_iff_forall_not_mem.2 fun a ha =>
              (hclean a ha).2 (hstarts a (mem_of_mem_drop ha))
          have hlen := drop_eq_nil_iff.1 hnil
          have hcount := countP_eq_length.1 (Nat.le_antisymm countP_le_length hlen)
          exact fun a ha => by simpa using hcount a ha
        have hstay : ∀ a ∈ as, ¬policy.Stays tag a :=
          fun a ha hs => by rw [hstays a ha, hall a ha] at hs; exact absurd hs (by simp)
        exact ⟨pairwise_of_forall_mem_list fun a ha _ _ hs => absurd hs (hstay a ha),
          fun _ => hstay⟩
      · rintro ⟨-, hstay⟩
        have hcount : as.countP (fun a => !rule.accepts a.2) = as.length := by
          rw [countP_eq_length]
          intro a ha
          have hrej : ¬rule.accepts a.2 = true := fun h => hstay hon a ha ((hstays a ha).2 h)
          simpa using hrej
        rw [hcount, drop_length]
        simp
    · have hnotOn : ∀ a ∈ as, ¬StartsOn a.name := by
        intro a ha hs
        rcases startsOn_cases hs with h | h
        · rw [hn a ha, hev] at h
          exact absurd h (by simp)
        · exact hon ((hn a ha).symm.trans h)
      constructor
      · intro hclean
        have hpair := hordered.1 fun a ha =>
          (hacc a (mem_of_mem_drop ha)).1 (hclean a ha).1
        refine ⟨hpair.imp_of_mem fun ha hb himp hs => ?_, fun h => absurd h hon⟩
        exact (hacc _ hb).2 (himp ((hstays _ ha).1 hs))
      · rintro ⟨hpair, -⟩ a ha
        have hmem := mem_of_mem_drop ha
        refine ⟨(hacc a hmem).2 (hordered.2 ?_ a ha), hnotOn a hmem⟩
        exact hpair.imp_of_mem fun ha hb himp hs => (hacc _ hb).1 (himp ((hstays _ ha).2 hs))

/-- **What the edits leave of an element's attributes is clean exactly when they are in order.** -/
theorem cleanAttrs_applyEdits_iff (h : (as.map Prod.fst).Nodup)
    (hedits : policy.attributeEdits tag as = .ok edits) :
    policy.CleanAttrs tag (applyEdits as edits) ↔ policy.Orderly tag as := by
  obtain ⟨rfl, hno⟩ := attributeEdits_eq_ok hedits
  have hclass (n : List Char) : named n (applyEdits as (as.filterMap (policy.editOf tag)))
      = policy.left tag n (named n as) := by
    rw [named_applyEdits h, filter_editOf, left]
  have hsplit : policy.CleanAttrs tag (applyEdits as (as.filterMap (policy.editOf tag))) ↔
      ∀ n, policy.CleanAttrs tag (policy.left tag n (named n as)) := by
    constructor
    · intro hclean n a ha
      rw [← hclass] at ha
      exact hclean a (mem_named.1 ha).1
    · intro hclean a ha
      exact hclean a.name a (hclass a.name ▸ mem_named.2 ⟨ha, rfl⟩)
  have hone (n : List Char) :
      policy.CleanAttrs tag (policy.left tag n (named n as)) ↔
        ((named n as).Pairwise fun a b => policy.Stays tag a → policy.Acceptable tag b) ∧
          (n = "on".toList → ∀ a ∈ named n as, ¬policy.Stays tag a) :=
    cleanAttrs_left_iff (fun a ha => (mem_named.1 ha).2) fun a ha => hno a (mem_named.1 ha).1
  rw [hsplit, Orderly]
  simp only [hone]
  constructor
  · intro hall
    refine ⟨pairwise_iff_forall_sublist.2 fun {a b} hab hname => ?_, fun a ha hon => ?_⟩
    · -- the two are also next to each other among the attributes of their name
      have hsub : [a, b].Sublist (named a.name as) := by
        have hfilter : (named a.name [a, b]).Sublist (named a.name as) := hab.filter _
        rwa [named_cons_self rfl, named_cons_self hname.symm] at hfilter
      exact pairwise_iff_forall_sublist.1 (hall a.name).1 hsub
    · exact (hall a.name).2 hon a (mem_named.2 ⟨ha, rfl⟩)
  · rintro ⟨hpair, hon⟩ n
    refine ⟨?_, fun hn a ha => ?_⟩
    · refine (hpair.sublist filter_sublist).imp_of_mem fun ha hb himp => himp ?_
      exact (mem_named.1 ha).2.trans (mem_named.1 hb).2.symm
    · obtain ⟨hmem, hname⟩ := mem_named.1 ha
      exact hon a hmem (hname.trans hn)

lemma applyEdits_removeAll (h : (as.map Prod.fst).Nodup) :
    applyEdits as (as.map fun a => (a.1.localName, none)) = [] := by
  rw [eq_nil_iff_forall_not_mem]
  intro a ha
  have hmem : a ∈ named a.name (applyEdits as (as.map fun a => (a.1.localName, none))) :=
    mem_named.2 ⟨ha, rfl⟩
  rw [named_applyEdits h, foldl_remove (fun b hb => (mem_named.1 hb).2)] at hmem
  · have hlen : ((as.map fun a => (a.1.localName, (none : Option String))).filter
        fun e => asciiFold e.1 = a.name).length = (named a.name as).length := by
      rw [filter_map, length_map]
      rfl
    rw [hlen, drop_length] at hmem
    exact absurd hmem not_mem_nil
  · intro e he
    obtain ⟨b, -, rfl⟩ := mem_map.1 (mem_of_mem_filter he)
    rfl

end Policy

end RustCfml.Sanitize
