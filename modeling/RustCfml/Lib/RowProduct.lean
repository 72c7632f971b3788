import Mathlib

/-!
# Rows grown one column at a time

A product of columns is built by folding: start with some rows, and for each layer append
every choice of that layer to every row, keeping what the layer's test accepts. Testing
while growing saves work and changes nothing else: **`growAll_eq_filter` says the rows that
survive are those of the untested product whose prefixes all pass, in the product's order.**
-/

namespace RowProduct

open List

variable {α β κ : Type*}

/-! ## Growing -/

structure Layer (α : Type*) where
  choices : List α
  keep : List α → Bool

def grow (l : Layer α) (rows : List (List α)) : List (List α) :=
  rows.flatMap fun row => (l.choices.map fun x => row ++ [x]).filter l.keep

def growAll (layers : List (Layer α)) (rows : List (List α)) : List (List α) :=
  layers.foldl (fun rows l => grow l rows) rows

def Layer.free (l : Layer α) : Layer α := { l with keep := fun _ => true }

/-- The tests of the layers, each on the prefix that was there when its layer was added; `w` is the
width before the first of them. -/
def passes : Nat → List (Layer α) → List α → Bool
  | _, [], _ => true
  | w, l :: ls, row => l.keep (row.take (w + 1)) && passes (w + 1) ls row

variable {w : Nat} {p : List α → Bool}

lemma length_of_mem_grow {l : Layer α} {rows : List (List α)}
    (h : ∀ row ∈ rows, row.length = w) : ∀ row ∈ grow l rows, row.length = w + 1 := by
  intro row hrow
  obtain ⟨base, hbase, hmem⟩ := mem_flatMap.1 hrow
  obtain ⟨x, _, rfl⟩ := mem_map.1 (mem_filter.1 hmem).1
  rw [length_append, h base hbase]
  rfl

lemma grow_eq_filter (l : Layer α) (rows : List (List α)) :
    grow l rows = (grow l.free rows).filter l.keep := by
  show rows.flatMap _ = (rows.flatMap _).filter l.keep
  rw [filter_flatMap]
  congr 1
  funext row
  show _ = filter l.keep (filter (fun _ => true) _)
  rw [filter_true]
  rfl

lemma filter_extend_take (l : Layer α) {row : List α} (hw : w ≤ row.length) :
    (grow l [row]).filter (fun row => p (row.take w)) = if p (row.take w) then grow l [row] else
    [] := by
  have hall : ∀ r ∈ grow l [row], p (r.take w) = p (row.take w) := by
    intro r hr
    obtain ⟨base, hbase, hmem⟩ := mem_flatMap.1 hr
    obtain ⟨x, _, rfl⟩ := mem_map.1 (mem_filter.1 hmem).1
    rw [mem_singleton.1 hbase, take_append_of_le_length hw]
  rw [filter_congr hall]
  cases p (row.take w) with
  | true => exact filter_true _
  | false => exact filter_false _

lemma grow_cons (l : Layer α) (row : List α) (rows : List (List α)) :
    grow l (row :: rows) = grow l [row] ++ grow l rows := by
  simp [grow, append_nil]

lemma grow_filter_take (l : Layer α) : ∀ {rows : List (List α)}, (∀ row ∈ rows, w ≤ row.length) →
      grow l (rows.filter fun row => p (row.take w)) = (grow l rows).filter fun row =>
      p (row.take w) := by
  intro rows
  induction rows with
  | nil => intro _; rfl
  | cons row rows ih =>
    intro hlen
    rw [grow_cons l row rows, filter_append, filter_extend_take l (hlen row mem_cons_self),
      ← ih (forall_mem_cons.1 hlen).2, filter_cons]
    cases p (row.take w) with
    | true => exact grow_cons l row _
    | false => rfl

lemma growAll_filter_take : ∀ (layers : List (Layer α)) {v : Nat} {rows : List (List α)}, w ≤ v →
      (∀ row ∈ rows, row.length = v) → growAll layers (rows.filter fun row => p (row.take w)) =
        (growAll layers rows).filter fun row => p (row.take w) := by
  intro layers
  induction layers with
  | nil => intro v rows _ _; rfl
  | cons l ls ih =>
    intro v rows hwv hlen
    show growAll ls (grow l _) = (growAll ls (grow l rows)).filter _
    rw [grow_filter_take l fun row hrow => by rw [hlen row hrow]; exact hwv]
    exact ih (Nat.le_succ_of_le hwv) (length_of_mem_grow hlen)

theorem growAll_eq_filter : ∀ (layers : List (Layer α)) {w : Nat} {rows : List (List α)},
      (∀ row ∈ rows, row.length = w) →
      growAll layers rows = (growAll (layers.map .free) rows).filter (passes w layers) := by
  intro layers
  induction layers with
  | nil =>
    intro w rows _
    exact (filter_true _).symm
  | cons l ls ih =>
    intro w rows hlen
    have hlen' := length_of_mem_grow (l := l.free) hlen
    have hkeep : grow l rows = (grow l.free rows).filter fun row => l.keep (row.take (w + 1)) := by
      rw [grow_eq_filter]
      refine filter_congr fun row hrow => ?_
      rw [take_of_length_le (Nat.le_of_eq (hlen' row hrow))]
    show growAll ls (grow l rows) =
      (growAll (ls.map .free) (grow l.free rows)).filter (passes w (l :: ls))
    rw [ih (length_of_mem_grow hlen), hkeep, growAll_filter_take _ le_rfl hlen', filter_filter]
    refine filter_congr fun row _ => ?_
    exact Bool.and_comm _ _

def select {m : Type → Type} [Monad m] {β : Type} (test : β → m Bool) : List β → m (List β)
  | [] => pure []
  | b :: bs => do
    let keep ← test b
    let rest ← select test bs
    pure (if keep then b :: rest else rest)

lemma select_pure {m : Type → Type} [Monad m] [LawfulMonad m] {β : Type} {test : β → m Bool}
    {p : β → Bool} : ∀ {l : List β}, (∀ b ∈ l, test b = pure (p b)) →
    select test l = pure (l.filter p)
  | [], _ => rfl
  | b :: bs, h => by
    have htail : select test bs = pure (bs.filter p) :=
      select_pure fun b' hb' => h b' (mem_cons_of_mem _ hb')
    rw [select, h b mem_cons_self, pure_bind, htail, pure_bind, filter_cons]

section

variable {ε : Type} {γ : Type} {test : γ → Except ε Bool} {p q : γ → Bool}

lemma select_filter_congr : ∀ {bs : List γ}, (∀ b ∈ bs, p b ≠ q b → test b = .ok false) →
      select test (bs.filter p) = select test (bs.filter q)
  | [], _ => rfl
  | b :: bs, h => by
    have ih : select test (bs.filter p) = select test (bs.filter q) :=
      select_filter_congr fun b' hb' => h b' (mem_cons_of_mem _ hb')
    have hdrop : test b = .ok false → ∀ bs', select test (b :: bs') = select test bs' := by
      intro hb bs'
      rw [select, hb]
      cases select test bs' <;> rfl
    by_cases hpq : p b = q b
    · rw [filter_cons, filter_cons, ← hpq]
      cases p b with
      | false => exact ih
      | true => simp only [if_pos, select, ih]
    · have hb := h b mem_cons_self hpq
      rw [filter_cons, filter_cons]
      cases p b <;> cases q b <;> simp [hdrop hb, ih]

lemma select_filter_inj {bs : List γ} (htotal : ∀ b ∈ bs, ∃ keep, test b = .ok keep)
    (heq : select test (bs.filter p) = select test (bs.filter q)) : ∀ b ∈ bs, p b ≠ q b →
    test b = .ok false := by
  have hsel : ∀ r : γ → Bool, select test (bs.filter r) =
      .ok ((bs.filter r).filter fun b => (test b).toOption == some true) := by
    intro r
    refine select_pure fun b hb => ?_
    obtain ⟨keep, hkeep⟩ := htotal b (mem_filter.1 hb).1
    rw [hkeep]
    cases keep <;> rfl
  rw [hsel p, hsel q, filter_filter, filter_filter, Except.ok.injEq] at heq
  intro b hb hne
  obtain ⟨keep, hkeep⟩ := htotal b hb
  cases keep with
  | false => exact hkeep
  | true =>
    have hiff : p b = true ↔ q b = true := by
      have := congrArg (b ∈ ·) heq
      simpa [mem_filter, hb, hkeep, Except.toOption] using this
    exact absurd (Bool.eq_iff_iff.2 hiff) hne

end

section

variable [DecidableEq κ]

/-- `entry(key).or_default().push(x)`. -/
def indexPush (idx : List (κ × List α)) (k : κ) (x : α) : List (κ × List α) :=
  match idx with
  | [] => [(k, [x])]
  | (k', xs) :: rest => if k' = k then (k', xs ++ [x]) :: rest else (k', xs) :: indexPush rest k x

def indexGet (idx : List (κ × List α)) (k : κ) : Option (List α) :=
  (idx.find? fun e => e.1 = k).map (·.2)

def indexBy (key : α → κ) (xs : List α) : List (κ × List α) :=
  xs.foldl (fun idx x => indexPush idx (key x) x) []

lemma indexGet_push (idx : List (κ × List α)) (k k' : κ) (x : α) :
    (indexGet (indexPush idx k x) k').getD [] =
      (indexGet idx k').getD [] ++ if k = k' then [x] else [] := by
  induction idx with
  | nil =>
    by_cases h : k = k' <;> simp [indexPush, indexGet, h]
  | cons e rest ih =>
    obtain ⟨k0, xs⟩ := e
    rw [indexPush]
    by_cases h0 : k0 = k
    · subst h0
      by_cases h : k0 = k' <;> simp [indexGet, h]
    · rw [if_neg h0]
      by_cases h : k0 = k'
      · subst h
        simp [indexGet, Ne.symm h0]
      · simpa [indexGet, h] using ih

lemma indexGet_indexBy (key : α → κ) (xs : List α) (k : κ) :
    (indexGet (indexBy key xs) k).getD [] = xs.filter fun x => key x = k := by
  suffices h : ∀ idx, (indexGet (xs.foldl (fun idx x => indexPush idx (key x) x) idx) k).getD [] =
      (indexGet idx k).getD [] ++ xs.filter fun x => key x = k from h []
  induction xs with
  | nil => intro idx; exact (append_nil _).symm
  | cons x xs ih =>
    intro idx
    rw [foldl_cons, ih, indexGet_push, append_assoc, filter_cons]
    congr 1
    by_cases h : key x = k <;> simp [h]

lemma mem_indexPush {idx : List (κ × List α)} {key : α → κ} {x : α} {seen : List α}
    (h : ∀ e ∈ idx, ∀ y ∈ e.2, y ∈ seen ∧ key y = e.1) :
    ∀ e ∈ indexPush idx (key x) x, ∀ y ∈ e.2, y ∈ x :: seen ∧ key y = e.1 := by
  induction idx with
  | nil =>
    intro e he y hy
    rw [indexPush, mem_singleton] at he
    subst he
    rw [mem_singleton.1 hy]
    exact ⟨mem_cons_self, rfl⟩
  | cons e0 rest ih =>
    obtain ⟨k0, xs⟩ := e0
    have hhead := h (k0, xs) mem_cons_self
    have hrest := ih (forall_mem_cons.1 h).2
    intro e he y hy
    rw [indexPush] at he
    split at he
    · next hk =>
      rcases mem_cons.1 he with rfl | he
      · rcases mem_append.1 hy with hy | hy
        · exact ⟨mem_cons_of_mem _ (hhead y hy).1, (hhead y hy).2⟩
        · rw [mem_singleton.1 hy]
          exact ⟨mem_cons_self, hk.symm⟩
      · obtain ⟨hmem, hkey⟩ := h e (mem_cons_of_mem _ he) y hy
        exact ⟨mem_cons_of_mem _ hmem, hkey⟩
    · rcases mem_cons.1 he with rfl | he
      · exact ⟨mem_cons_of_mem _ (hhead y hy).1, (hhead y hy).2⟩
      · exact hrest e he y hy

lemma mem_indexBy {key : α → κ} {xs : List α} : ∀ e ∈ indexBy key xs, ∀ y ∈ e.2, y ∈ xs ∧
    key y = e.1 := by
  suffices h : ∀ (xs : List α) (idx : List (κ × List α)) (seen : List α),
      (∀ e ∈ idx, ∀ y ∈ e.2, y ∈ seen ∧ key y = e.1) →
      ∀ e ∈ xs.foldl (fun idx x => indexPush idx (key x) x) idx,
        ∀ y ∈ e.2, (y ∈ xs ∨ y ∈ seen) ∧ key y = e.1 by
    intro e he y hy
    obtain ⟨hmem | hmem, hkey⟩ := h xs [] [] (fun _ he => nomatch he) e he y hy
    · exact ⟨hmem, hkey⟩
    · exact nomatch hmem
  intro xs
  induction xs with
  | nil => exact fun idx seen hidx e he y hy => ⟨.inr (hidx e he y hy).1, (hidx e he y hy).2⟩
  | cons x xs ih =>
    intro idx seen hidx e he y hy
    obtain ⟨hmem, hkey⟩ := ih (indexPush idx (key x) x) (x :: seen) (mem_indexPush hidx) e he y hy
    refine ⟨?_, hkey⟩
    rcases hmem with hmem | hmem
    · exact .inl (mem_cons_of_mem _ hmem)
    · rcases mem_cons.1 hmem with rfl | hmem
      · exact .inl mem_cons_self
      · exact .inr hmem

lemma together_indexBy_iff (key : α → κ) (xs : List α) (x y : α) :
    (∃ e ∈ indexBy key xs, x ∈ e.2 ∧ y ∈ e.2) ↔ x ∈ xs ∧ y ∈ xs ∧ key x = key y := by
  constructor
  · rintro ⟨e, he, hx, hy⟩
    obtain ⟨hxs, hkx⟩ := mem_indexBy e he x hx
    obtain ⟨hys, hky⟩ := mem_indexBy e he y hy
    exact ⟨hxs, hys, hkx.trans hky.symm⟩
  · rintro ⟨hx, hy, hkey⟩
    have hget := indexGet_indexBy key xs (key x)
    cases hfound : indexGet (indexBy key xs) (key x) with
    | none =>
      rw [hfound] at hget
      have hmem : x ∈ xs.filter fun z => key z = key x := mem_filter.2 ⟨hx, by simp⟩
      rw [← hget] at hmem
      exact nomatch hmem
    | some group =>
      obtain ⟨e, he, rfl⟩ := Option.map_eq_some_iff.1 hfound
      rw [hfound, Option.getD_some] at hget
      refine ⟨e, mem_of_find?_eq_some he, ?_, ?_⟩
      · rw [hget]
        exact mem_filter.2 ⟨hx, by simp⟩
      · rw [hget]
        exact mem_filter.2 ⟨hy, by simp [hkey]⟩

end

end RowProduct
