import Mathlib

/-!
# Forests of numbered nodes, edited in place

Editing by number, one node after the other, is compared with **passes over the whole forest**:
`prune` drops nodes, `splice` puts the children of nodes in their place, `mapValues` rewrites
values.
-/

namespace Arena

open List Option

inductive Forest (α : Type) where
  | nil
  | node (id : Nat) (value : α) (children next : Forest α)

namespace Forest

variable {α : Type}

def append : Forest α → Forest α → Forest α
  | nil, g => g
  | node i v c r, g => node i v c (append r g)

instance : Append (Forest α) := ⟨append⟩

/-- All nodes, each before its children, with their children. -/
def nodes : Forest α → List (Nat × α × Forest α)
  | nil => []
  | node i v c r => (i, v, c) :: (nodes c ++ nodes r)

@[local simp] def ids : Forest α → List Nat
  | nil => []
  | node i _ c r => i :: (ids c ++ ids r)

def roots : Forest α → List Nat
  | nil => []
  | node i _ _ r => i :: roots r

def mapValues (h : Nat → α → α) : Forest α → Forest α
  | nil => nil
  | node i v c r => node i (h i v) (mapValues h c) (mapValues h r)

/-- Without the nodes of `p` and what is under them. -/
@[local simp] def prune (p : Nat → Bool) : Forest α → Forest α
  | nil => nil
  | node i v c r => if p i then prune p r else node i v (prune p c) (prune p r)

/-- With the children of the nodes of `p` in their place. -/
def splice (p : Nat → Bool) : Forest α → Forest α
  | nil => nil
  | node i v c r => if p i then splice p c ++ splice p r else node i v (splice p c) (splice p r)

def find (x : Nat) : Forest α → Option (α × Forest α)
  | nil => none
  | node i v c r => if i = x then some (v, c) else (find x c).or (find x r)

def update (x : Nat) (g : α → α) : Forest α → Forest α := mapValues fun i v => if i = x then
    g v else v

def detach (x : Nat) : Forest α → Forest α := prune (· == x)

def insertBefore : Forest α → Nat → Nat → α → Forest α → Forest α
  | nil, _, _, _, _ => nil
  | node j w d r, x, i, v, c =>
    if j = x then node i v c (node j w d r)
    else node j w (insertBefore d x i v c) (insertBefore r x i v c)

/-- Node `y` leaves its place for the one in front of node `x`. -/
def moveBefore (x : Nat) (f : Forest α) (y : Nat) : Forest α :=
  match f.find y with
  | some (v, c) => (f.detach y).insertBefore x y v c
  | none => f

/-- The nodes `ys` move in front of `x`, and `x` goes. -/
def unwrap (f : Forest α) (e : Nat × List Nat) : Forest α :=
  (e.2.foldl (moveBefore e.1) f).detach e.1

/-! ## Simplification -/

@[simp] lemma nil_append (g : Forest α) : nil ++ g = g := rfl

@[simp] lemma node_append (i : Nat) (v : α) (c r g : Forest α) :
    node i v c r ++ g = node i v c (r ++ g) := rfl

@[simp] lemma append_nil (f : Forest α) : f ++ nil = f := by
  induction f with
  | nil => rfl
  | node i v c r _ ih => rw [node_append, ih]

lemma append_assoc (f g h : Forest α) : f ++ g ++ h = f ++ (g ++ h) := by
  induction f with
  | nil => rfl
  | node i v c r _ ih => simp only [node_append, ih]

@[simp] lemma ids_append (f g : Forest α) : (f ++ g).ids = f.ids ++ g.ids := by
  induction f with
  | nil => rfl
  | node i v c r _ ih => simp [ih]

@[simp] lemma map_fst_nodes (f : Forest α) : f.nodes.map Prod.fst = f.ids := by
  induction f with
  | nil => rfl
  | node i v c r ihc ihr => simp [nodes, ihc, ihr]

lemma roots_subset_ids (f : Forest α) : f.roots ⊆ f.ids := by
  induction f with
  | nil => exact Subset.refl _
  | node i v c r _ ih =>
    simp [roots, ids, cons_subset, true_or]
    exact fun x hx => mem_cons_of_mem i (mem_append_right _ (ih hx))

@[simp] lemma prune_append (p : Nat → Bool) (f g : Forest α) :
    (f ++ g).prune p = f.prune p ++ g.prune p := by
  induction f with
  | nil => rfl
  | node i v c r _ ih =>
    simp only [node_append, prune, ih]
    split <;> rfl

@[simp] lemma splice_append (p : Nat → Bool) (f g : Forest α) :
    (f ++ g).splice p = f.splice p ++ g.splice p := by
  induction f with
  | nil => rfl
  | node i v c r _ ih =>
    simp only [node_append, splice, ih]
    split
    · rw [append_assoc]
    · rfl

@[simp] lemma find_append (x : Nat) (f g : Forest α) :
    (f ++ g).find x = (f.find x).or (g.find x) := by
  induction f with
  | nil => rfl
  | node i v c r _ ih =>
    simp only [node_append, find, ih]
    split
    · rfl
    · rw [Option.or_assoc]

variable {x i y : Nat} {f c r a b : Forest α} {v : α}

lemma mem_ids_node : x ∈ (node i v c r).ids ↔ x = i ∨ x ∈ c.ids ∨ x ∈ r.ids := by
  simp

lemma notMem_ids_node : x ∉ (node i v c r).ids ↔ i ≠ x ∧ x ∉ c.ids ∧ x ∉ r.ids := by
  rw [mem_ids_node, not_or, not_or, ne_comm]

lemma nodup_ids_node : (node i v c r).ids.Nodup ↔
      (i ∉ c.ids ∧ i ∉ r.ids) ∧ c.ids.Nodup ∧ r.ids.Nodup ∧ c.ids.Disjoint r.ids := by
  rw [ids, nodup_cons, mem_append, not_or, nodup_append']

lemma find_of_notMem (hx : x ∉ f.ids) : f.find x = none := by
  induction f with
  | nil => rfl
  | node i v c r ihc ihr =>
    obtain ⟨hi, hc, hr⟩ := notMem_ids_node.1 hx
    rw [find, if_neg hi, ihc hc, ihr hr, or_none]

lemma detach_of_notMem (hx : x ∉ f.ids) : f.detach x = f := by
  induction f with
  | nil => rfl
  | node i v c r ihc ihr =>
    obtain ⟨hi, hc, hr⟩ := notMem_ids_node.1 hx
    have hic : c.prune (· == x) = c := ihc hc
    have hir : r.prune (· == x) = r := ihr hr
    simp [detach, hi, hic, hir]

lemma splice_of_notMem (hx : x ∉ f.ids) : f.splice (· == x) = f := by
  induction f with
  | nil => rfl
  | node i v c r ihc ihr =>
    obtain ⟨hi, hc, hr⟩ := notMem_ids_node.1 hx
    simp [splice, hi, ihc hc, ihr hr]

lemma insertBefore_of_notMem (hx : x ∉ f.ids) : f.insertBefore x i v c = f := by
  induction f with
  | nil => rfl
  | node j w d r ihd ihr =>
    obtain ⟨hj, hd, hr⟩ := notMem_ids_node.1 hx
    rw [insertBefore, if_neg hj, ihd hd, ihr hr]

lemma insertBefore_append (g : Forest α)
    (hx : x ∉ f.ids) : (f ++ g).insertBefore x i v c = f ++ g.insertBefore x i v c := by
  induction f with
  | nil => rfl
  | node j w d r _ ihr =>
    obtain ⟨hj, hd, hr⟩ := notMem_ids_node.1 hx
    rw [node_append, insertBefore, if_neg hj, ihr hr, insertBefore_of_notMem hd, node_append]

/-! ## Passes compose -/

lemma mapValues_mapValues (g h : Nat → α → α) (f : Forest α) :
    (f.mapValues g).mapValues h = f.mapValues fun i v => h i (g i v) := by
  induction f with
  | nil => rfl
  | node i v c r ihc ihr => simp only [mapValues, ihc, ihr]

lemma prune_prune (p q : Nat → Bool) (f : Forest α) : (f.prune p).prune q = f.prune fun i => p i ||
    q i := by
  induction f with
  | nil => rfl
  | node i v c r ihc ihr =>
    by_cases hp : p i = true
    · simp [hp, ihr]
    · simp [hp, ihc, ihr]

lemma splice_splice (p q : Nat → Bool) (f : Forest α) : (f.splice p).splice q = f.splice fun i =>
    p i || q i := by
  induction f with
  | nil => rfl
  | node i v c r ihc ihr =>
    by_cases hp : p i = true
    iterate 2 simp [splice, hp, ihc, ihr]

@[simp] lemma prune_false (f : Forest α) : f.prune (fun _ => false) = f := by
  induction f with
  | nil => rfl
  | node i v c r ihc ihr => simp [ihc, ihr]

@[simp] lemma splice_false (f : Forest α) : f.splice (fun _ => false) = f := by
  induction f with
  | nil => rfl
  | node i v c r ihc ihr => simp [splice, ihc, ihr]

lemma ids_mapValues (h : Nat → α → α) (f : Forest α) : (f.mapValues h).ids = f.ids := by
  induction f with
  | nil => rfl
  | node i v c r ihc ihr => simp [mapValues, ihc, ihr]

lemma roots_mapValues (h : Nat → α → α) (f : Forest α) : (f.mapValues h).roots = f.roots := by
  induction f with
  | nil => rfl
  | node i v c r _ ihr => simp [mapValues, roots, ihr]

lemma find_mapValues (h : Nat → α → α) (x : Nat) (f : Forest α) :
    (f.mapValues h).find x = (f.find x).map fun e => (h x e.1, e.2.mapValues h) := by
  induction f with
  | nil => rfl
  | node i v c r ihc ihr =>
    rw [mapValues, find, find]
    split
    next hi => rw [hi, map_some]
    next => rw [ihc, ihr, map_or]

lemma ids_splice_sublist (p : Nat → Bool) (f : Forest α) : (f.splice p).ids.Sublist f.ids := by
  induction f with
  | nil => exact Sublist.refl _
  | node i v c r ihc ihr =>
    rw [splice]
    split
    · rw [ids_append]
      exact (ihc.append ihr).trans (sublist_cons_self i _)
    · exact (ihc.append ihr).cons_cons i

lemma detachEach_eq_prune (xs : List Nat) (f : Forest α) :
    xs.foldl (fun f x => f.detach x) f = f.prune fun i => xs.contains i := by
  induction xs generalizing f with
  | nil => exact (prune_false f).symm
  | cons x xs ih =>
    rw [foldl_cons, ih, detach, prune_prune]
    simp only [contains_cons]

lemma updateEach_eq_mapValues {β : Type} (g : β → α → α) (es : List (Nat × β)) (f : Forest α) :
    es.foldl (fun f e => f.update e.1 (g e.2)) f
      = f.mapValues fun i v => es.foldl (fun v e => if i = e.1 then g e.2 v else v) v := by
  induction es generalizing f with
  | nil =>
    induction f with
    | nil => rfl
    | node i v c r ihc ihr =>
      simp only [foldl_nil] at ihc ihr ⊢
      rw [mapValues, ← ihc, ← ihr]
  | cons e es ih => rw [foldl_cons, ih, update, mapValues_mapValues]; rfl

/-! ## Unwrapping a node by moving its children -/

/-- The forest in the middle of an unwrapping: of the children of `x`, those in `a` already stand in
front of it. -/
def spread : Forest α → Nat → Forest α → Forest α → Forest α
  | nil, _, _, _ => nil
  | node i v c r, x, a, b =>
    if i = x then a ++ node i v b r else node i v (spread c x a b) (spread r x a b)

lemma spread_of_notMem (hx : x ∉ f.ids) : f.spread x a b = f := by
  induction f with
  | nil => rfl
  | node i v c r ihc ihr =>
    obtain ⟨hi, hc, hr⟩ := notMem_ids_node.1 hx
    rw [spread, if_neg hi, ihc hc, ihr hr]

lemma spread_nil (hf : f.ids.Nodup) (hx : f.find x = some (v, c)) : f.spread x nil c = f := by
  induction f with
  | nil => rfl
  | node i w d r ihd ihr =>
    obtain ⟨-, hd, hr, hdis⟩ := nodup_ids_node.1 hf
    rw [find] at hx
    rw [spread]
    split at hx
    next hi =>
      obtain ⟨rfl, rfl⟩ := Prod.mk.inj (some.inj hx)
      rw [if_pos hi, nil_append]
    next hi =>
      rw [if_neg hi]
      by_cases hxd : x ∈ d.ids
      · have hxr : x ∉ r.ids := fun h => hdis hxd h
        rw [find_of_notMem hxr, or_none] at hx
        rw [ihd hd hx, spread_of_notMem hxr]
      · rw [find_of_notMem hxd, none_or] at hx
        rw [ihr hr hx, spread_of_notMem hxd]

lemma mem_ids_spread (hx : x ∈ f.ids) (y : Nat) (hy : y = x ∨ y ∈ a.ids ∨ y ∈ b.ids) :
    y ∈ (f.spread x a b).ids := by
  induction f with
  | nil => exact absurd hx not_mem_nil
  | node i v c r ihc ihr =>
    rw [spread]
    split
    next hi =>
      rw [ids_append, mem_append, mem_ids_node]
      rcases hy with rfl | hy | hy
      · exact Or.inr (Or.inl hi.symm)
      · exact Or.inl hy
      · exact Or.inr (Or.inr (Or.inl hy))
    next hi =>
      rw [mem_ids_node]
      rcases mem_ids_node.1 hx with rfl | hx | hx
      · exact absurd rfl hi
      · exact Or.inr (Or.inl (ihc hx))
      · exact Or.inr (Or.inr (ihr hx))

lemma ids_spread_perm (x : Nat) (a b d f : Forest α) :
    (f.spread x (a ++ b) d).ids.Perm (f.spread x a (b ++ d)).ids := by
  induction f with
  | nil => exact Perm.refl _
  | node i v c r ihc ihr =>
    rw [spread, spread]
    split
    · simp only [ids_append, ids, List.append_assoc]
      exact Perm.append_left _ perm_middle
    · exact (ihc.append ihr).cons i

lemma detach_node (h : i ≠ y) : (node i v c r).detach y = node i v (c.detach y) (r.detach y) := by
  simp [detach, h]

lemma moveBefore_children (hf : (node i v c r).ids.Nodup) (hx : x ∈ c.ids) (hy : y ∈ c.ids) :
    (node i v c r).moveBefore x y = node i v (c.moveBefore x y) r := by
  obtain ⟨⟨hic, -⟩, -, -, hdis⟩ := nodup_ids_node.1 hf
  have hiy : i ≠ y := fun h => hic (h ▸ hy)
  have hix : i ≠ x := fun h => hic (h ▸ hx)
  have hyr : y ∉ r.ids := fun h => hdis hy h
  rw [moveBefore, moveBefore, find, if_neg hiy, find_of_notMem hyr, or_none, detach_node hiy,
    detach_of_notMem hyr]
  cases c.find y with
  | none => rfl
  | some e => simp only [insertBefore, if_neg hix, insertBefore_of_notMem fun h => hdis hx h]

lemma moveBefore_next (hf : (node i v c r).ids.Nodup) (hx : x ∈ r.ids) (hy : y ∈ r.ids) :
    (node i v c r).moveBefore x y = node i v c (r.moveBefore x y) := by
  obtain ⟨⟨-, hir⟩, -, -, hdis⟩ := nodup_ids_node.1 hf
  have hiy : i ≠ y := fun h => hir (h ▸ hy)
  have hix : i ≠ x := fun h => hir (h ▸ hx)
  have hyc : y ∉ c.ids := fun h => hdis h hy
  rw [moveBefore, moveBefore, find, if_neg hiy, find_of_notMem hyc, none_or, detach_node hiy,
    detach_of_notMem hyc]
  cases r.find y with
  | none => rfl
  | some e => simp only [insertBefore, if_neg hix, insertBefore_of_notMem fun h => hdis h hx]

lemma moveBefore_spread {w : α} {d : Forest α} (hf : (f.spread x a (node y w d b)).ids.Nodup)
    (hx : x ∈ f.ids) :
    (f.spread x a (node y w d b)).moveBefore x y = f.spread x (a ++ node y w d nil) b := by
  have hymem {g : Forest α} (hg : x ∈ g.ids) : y ∈ (g.spread x a (node y w d b)).ids :=
    mem_ids_spread hg y (Or.inr (Or.inr (mem_ids_node.2 (Or.inl rfl))))
  have hxmem {g : Forest α} (hg : x ∈ g.ids) : x ∈ (g.spread x a (node y w d b)).ids :=
    mem_ids_spread hg x (Or.inl rfl)
  induction f with
  | nil => exact absurd hx not_mem_nil
  | node i v c r ihc ihr =>
    by_cases hi : i = x
    · subst hi
      rw [spread, if_pos rfl] at hf ⊢
      rw [spread, if_pos rfl]
      rw [ids_append, nodup_append'] at hf
      obtain ⟨-, hnode, hdis⟩ := hf
      obtain ⟨⟨hiy, -⟩, hyb, -, hyr⟩ := nodup_ids_node.1 hnode
      obtain ⟨⟨hyd, hyb'⟩, -⟩ := nodup_ids_node.1 hyb
      have hya : y ∉ a.ids := fun h => hdis h (by simp)
      have hia : i ∉ a.ids := fun h => hdis h (by simp)
      have hyr' : y ∉ r.ids := fun h => hyr (by simp) h
      have hne : i ≠ y := (notMem_ids_node.1 hiy).1.symm
      have hfind : (a ++ node i v (node y w d b) r).find y = some (w, d) := by
        rw [find_append, find_of_notMem hya, none_or, find, if_neg hne, find, if_pos rfl, some_or]
      have hdet : (a ++ node i v (node y w d b) r).detach y = a ++ node i v b r := by
        have ha := detach_of_notMem hya
        have hb := detach_of_notMem hyb'
        have hr := detach_of_notMem hyr'
        simp only [detach] at ha hb hr ⊢
        simp [hne, ha, hb, hr]
      simp only [moveBefore, hfind, hdet]
      rw [insertBefore_append _ hia, insertBefore, if_pos rfl, append_assoc, node_append,
        nil_append]
    · rw [spread, if_neg hi] at hf ⊢
      rw [spread, if_neg hi]
      obtain ⟨-, hcn, hrn, hdis⟩ := nodup_ids_node.1 hf
      rcases mem_ids_node.1 hx with rfl | hxc | hxr
      · exact absurd rfl hi
      · have hxr : x ∉ r.ids := fun h => hdis (hxmem hxc) (hxmem h)
        rw [moveBefore_children hf (hxmem hxc) (hymem hxc), ihc hcn hxc, spread_of_notMem hxr,
          spread_of_notMem hxr]
      · have hxc : x ∉ c.ids := fun h => hdis (hxmem h) (hxmem hxr)
        rw [moveBefore_next hf (hxmem hxr) (hymem hxr), ihr hrn hxr, spread_of_notMem hxc,
          spread_of_notMem hxc]

lemma moveEach_spread (hf : (f.spread x a b).ids.Nodup)
    (hx : x ∈ f.ids) : b.roots.foldl (moveBefore x) (f.spread x a b) = f.spread x (a ++ b) nil := by
  induction b generalizing a with
  | nil => rw [append_nil]; rfl
  | node y w d b _ ih =>
    rw [roots, foldl_cons, moveBefore_spread hf hx, ih, append_assoc, node_append, nil_append]
    have hperm := ids_spread_perm x a (node y w d nil) b f
    exact hperm.nodup_iff.2 hf

lemma detach_spread (hf : f.ids.Nodup)
    (hx : f.find x = some (v, c)) : (f.spread x c nil).detach x = f.splice (· == x) := by
  induction f with
  | nil => rfl
  | node i w d r ihd ihr =>
    obtain ⟨⟨hid, hir⟩, hd, hr, hdis⟩ := nodup_ids_node.1 hf
    rw [find] at hx
    rw [spread, splice]
    split at hx
    next hi =>
      subst hi
      obtain ⟨rfl, rfl⟩ := Prod.mk.inj (some.inj hx)
      have hdd := detach_of_notMem hid
      have hrr := detach_of_notMem hir
      simp only [detach] at hdd hrr ⊢
      simp [hdd, hrr, splice_of_notMem hid, splice_of_notMem hir]
    next hi =>
      rw [if_neg hi, if_neg (by simpa using hi)]
      rw [detach_node hi]
      by_cases hxd : x ∈ d.ids
      · have hxr : x ∉ r.ids := fun h => hdis hxd h
        rw [find_of_notMem hxr, or_none] at hx
        rw [ihd hd hx, spread_of_notMem hxr, detach_of_notMem hxr, splice_of_notMem hxr]
      · rw [find_of_notMem hxd, none_or] at hx
        rw [ihr hr hx, spread_of_notMem hxd, detach_of_notMem hxd, splice_of_notMem hxd]

lemma mem_ids_of_find {e : α × Forest α} (h : f.find x = some e) : x ∈ f.ids := by
  by_contra hx
  rw [find_of_notMem hx] at h
  exact absurd h (by simp)

lemma unwrap_eq_splice (hf : f.ids.Nodup)
    (hx : f.find x = some (v, c)) : f.unwrap (x, c.roots) = f.splice (· == x) := by
  have hnodup : (f.spread x nil c).ids.Nodup := by rwa [spread_nil hf hx]
  have hmoved := moveEach_spread hnodup (mem_ids_of_find hx)
  rw [spread_nil hf hx, nil_append] at hmoved
  rw [unwrap, hmoved, detach_spread hf hx]

variable {p : Nat → Bool} {e : Nat × α × Forest α}

lemma find_splice (hx : p x = false) (f : Forest α) :
    (f.splice p).find x = (f.find x).map fun e => (e.1, e.2.splice p) := by
  induction f with
  | nil => rfl
  | node i v c r ihc ihr =>
    rw [splice, find]
    split
    next hp =>
      have hne : i ≠ x := fun h => by rw [h, hx] at hp; exact absurd hp (by simp)
      rw [if_neg hne, find_append, ihc, ihr, map_or]
    next =>
      rw [find]
      split
      · rfl
      · rw [ihc, ihr, map_or]

lemma roots_splice (h : ∀ x ∈ f.roots, p x = false) : (f.splice p).roots = f.roots := by
  induction f with
  | nil => rfl
  | node i v c r _ ih =>
    rw [roots, forall_mem_cons] at h
    rw [splice, h.1, if_neg (by simp), roots, ih h.2, roots]

/-- **Unwrapping one node after the other is one pass**, as long as each list of children is right
when it was made and no child is unwrapped before its parent. -/
theorem unwrapEach_eq_splice (es : List (Nat × List Nat)) (hf : f.ids.Nodup)
    (hfind : ∀ e ∈ es, ∃ v c, f.find e.1 = some (v, c) ∧ e.2 = c.roots)
    (horder : es.Pairwise fun a b => a.1 ≠ b.1 ∧ a.1 ∉ b.2) :
    es.foldl unwrap f = f.splice fun i => (es.map Prod.fst).contains i := by
  induction es generalizing f with
  | nil => exact (splice_false f).symm
  | cons e es ih =>
    obtain ⟨hfirst, hrest⟩ := forall_mem_cons.1 hfind
    obtain ⟨hbefore, htail⟩ := pairwise_cons.1 horder
    obtain ⟨v, c, hx, hc⟩ := hfirst
    have hunwrap : f.unwrap e = f.splice (· == e.1) := by
      obtain ⟨x, ys⟩ := e
      subst hc
      exact unwrap_eq_splice hf hx
    rw [foldl_cons, hunwrap, ih ((ids_splice_sublist _ f).nodup hf) _ htail, splice_splice]
    · simp
    · -- the lists of the others are still right
      intro b hb
      obtain ⟨w, d, hd, hroots⟩ := hrest b hb
      obtain ⟨hne, hnot⟩ := hbefore b hb
      refine ⟨w, d.splice (· == e.1), ?_, ?_⟩
      · rw [find_splice (by simpa using hne.symm), hd, map_some]
      · rw [hroots, roots_splice]
        intro y hy
        have hye : y ≠ e.1 := fun h => hnot (by rw [hroots, ← h]; exact hy)
        simpa using hye

lemma find_of_mem_nodes (hf : f.ids.Nodup) (he : e ∈ f.nodes) : f.find e.1 = some e.2 := by
  induction f with
  | nil => exact absurd he not_mem_nil
  | node i v c r ihc ihr =>
    obtain ⟨⟨hic, hir⟩, hc, hr, hdis⟩ := nodup_ids_node.1 hf
    have hid {g : Forest α} (hg : e ∈ g.nodes) : e.1 ∈ g.ids := by
      rw [← map_fst_nodes]
      exact mem_map_of_mem hg
    rcases mem_cons.1 he with rfl | hmem
    · rw [find, if_pos rfl]
    · rcases mem_append.1 hmem with hmem | hmem
      · have hne : i ≠ e.1 := fun h => hic (h ▸ hid hmem)
        rw [find, if_neg hne, ihc hc hmem, some_or]
      · have hne : i ≠ e.1 := fun h => hir (h ▸ hid hmem)
        have hnc : e.1 ∉ c.ids := fun h => hdis h (hid hmem)
        rw [find, if_neg hne, find_of_notMem hnc, none_or, ihr hr hmem]

lemma ids_children_subset (he : e ∈ f.nodes) : e.2.2.ids ⊆ f.ids := by
  induction f with
  | nil => exact absurd he not_mem_nil
  | node i v c r ihc ihr =>
    intro x hx
    rw [mem_ids_node]
    rcases mem_cons.1 he with rfl | hmem
    · exact Or.inr (Or.inl hx)
    · rcases mem_append.1 hmem with hmem | hmem
      · exact Or.inr (Or.inl (ihc hmem hx))
      · exact Or.inr (Or.inr (ihr hmem hx))

lemma nodes_pairwise (hf : f.ids.Nodup) : f.nodes.Pairwise fun a b => a.1 ≠ b.1 ∧
    a.1 ∉ b.2.2.roots := by
  induction f with
  | nil => exact Pairwise.nil
  | node i v c r ihc ihr =>
    obtain ⟨⟨hic, hir⟩, hc, hr, hdis⟩ := nodup_ids_node.1 hf
    have hid {g : Forest α} {e : Nat × α × Forest α} (hg : e ∈ g.nodes) : e.1 ∈ g.ids := by
      rw [← map_fst_nodes]
      exact mem_map_of_mem hg
    have hroot {g : Forest α} {e : Nat × α × Forest α} {x : Nat} (hg : e ∈ g.nodes)
        (hx : x ∈ e.2.2.roots) : x ∈ g.ids := ids_children_subset hg (roots_subset_ids _ hx)
    rw [nodes, pairwise_cons, pairwise_append]
    refine ⟨fun b hb => ?_, ihc hc, ihr hr, fun a ha b hb => ?_⟩
    · rcases mem_append.1 hb with hb | hb
      · exact ⟨fun (h : i = b.1) => hic (h ▸ hid hb), fun h => hic (hroot hb h)⟩
      · exact ⟨fun (h : i = b.1) => hir (h ▸ hid hb), fun h => hir (hroot hb h)⟩
    · exact ⟨fun h => hdis (hid ha) (h ▸ hid hb), fun h => hdis (hid ha) (hroot hb h)⟩

end Forest
end Arena
