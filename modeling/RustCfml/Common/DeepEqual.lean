import RustCfml.Common.Rectangular
import RustCfml.Common.VersionedMap
import RustCfml.Lib.Bisimulation

/-!
# Deep equality

`equality.rs` compares two value graphs that may share and may be cyclic. `DeepEqGuard` is the walk
of `Bisimulation.compare`: it takes a pair met before as equal, and **it refuses to go on where the
native stack is nearly used up**, so there is an answer only with the frames for it.
-/

namespace RustCfml.DeepEqual

open Bisimulation List

inductive Leaf where
  | instance_ (id : Nat)
  /-- Everything else, by `as_string`. -/
  | scalar (text : String)

variable {n : Nat}

abbrev Value (n : Nat) := Val (Fin n) Leaf

/-- The containers that are compared by their contents. -/
inductive Container (n : Nat) where
  | struct (m : ValueMap (Value n)) (distinct : m.Distinct)
  | array (items : List (Value n))
  | query (q : QueryData (Value n)) (rectangular : q.Rectangular)

abbrev Graph (n : Nat) := Fin n → Container n

/-- How values are compared that hold no others. -/
def leafEq (nocase : Bool) : Leaf → Leaf → Bool
  | .instance_ i, .instance_ j => i == j
  | .scalar s, .scalar t => if nocase then eqIgnoreAsciiCase s t else s == t
  | _, _ => false

def sameKind : Container n → Container n → Bool
  | .struct _ _, .struct _ _ | .array _, .array _ | .query _ _, .query _ _ => true
  | _, _ => false

/-- The pairs that have to be equal; `none` for one that has no partner. -/
def contents : Container n → Container n → Steps (Fin n) Leaf
  | .struct m _, .struct m' _ =>
    if m.length ≠ m'.length then [none]
    else m.map fun e => (m'.get? e.1).map fun v => (e.2, v)
  | .array xs, .array ys => if xs.length ≠ ys.length then [none] else (xs.zip ys).map some
  | .query q _, .query q' _ =>
    if q.columns.length ≠ q'.columns.length ∨ q.rowCount ≠ q'.rowCount then [none]
    else if !(q.columns.zip q'.columns).all fun p => eqIgnoreAsciiCase p.1 p.2 then [none]
    else (q.data.zip q'.data).flatMap fun p => (p.1.zip p.2).map some
  | _, _ => [none]

def tooDeep : String :=
  "Cannot compare the values: they are nested too deeply (the native stack is exhausted)"

/-- The comparison with room for so many nested pairs. -/
def deepEqual (g : Graph n) (nocase : Bool) (frames : Nat) (x y : Value n) : Except String Bool :=
  match compare (leafEq nocase) (fun a b => sameKind (g a) (g b)) (fun a b => contents (g a) (g b))
    frames x y [] with
  | some (answer, _) => .ok answer
  | none => .error tooDeep

/-- Containers of one kind whose contents are related: the same keys up to case, the same length,
the same columns. -/
def Alike (P : Value n → Value n → Prop) : Container n → Container n → Prop
  | .struct m _, .struct m' _ => ∀ k, Option.Rel P (m.get? k) (m'.get? k)
  | .array xs, .array ys => List.Forall₂ P xs ys
  | .query q _, .query q' _ =>
    List.Forall₂ (fun c c' => asciiFold c = asciiFold c') q.columns q'.columns ∧
      List.Forall₂ (List.Forall₂ P) q.data q'.data
  | _, _ => False

def IsBisimulation (g : Graph n) (nocase : Bool) (R : Fin n → Fin n → Prop) : Prop :=
  ∀ a b, R a b → Alike (Related (leafEq nocase) R) (g a) (g b)

def ValuesBisimilar (g : Graph n) (nocase : Bool) (x y : Value n) : Prop :=
  ∃ R, IsBisimulation g nocase R ∧ Related (leafEq nocase) R x y

def AllPairs (P : Value n → Value n → Prop) (todo : Steps (Fin n) Leaf) : Prop :=
  ∀ s ∈ todo, ∃ x y, s = some (x, y) ∧ P x y

variable {P : Value n → Value n → Prop}

lemma not_allPairs_none : ¬AllPairs P [none] := by
  intro h
  obtain ⟨x, y, hxy, -⟩ := h none (mem_singleton.2 rfl)
  cases hxy

lemma allPairs_zip {xs ys : List (Value n)}
    (h : xs.length = ys.length) : AllPairs P ((xs.zip ys).map some) ↔ Forall₂ P xs ys := by
  rw [forall₂_iff_zip]
  constructor
  · intro hall
    refine ⟨h, fun {x y} hmem => ?_⟩
    obtain ⟨x', y', heq, hP⟩ := hall _ (mem_map_of_mem hmem)
    cases heq
    exact hP
  · rintro ⟨-, hall⟩ s hs
    obtain ⟨⟨x, y⟩, hmem, rfl⟩ := mem_map.1 hs
    exact ⟨x, y, rfl, hall hmem⟩

variable {α : Type} {nocase : Bool} {x y : Leaf} {c c' : Container n}

lemma mem_folds_iff {m : ValueMap α} {k : String} :
    asciiFold k ∈ m.map (fun e => asciiFold e.1) ↔ (m.get? k).isSome := by
  rw [← not_iff_not, ← ValueMap.get?_eq_none_iff, Option.not_isSome_iff_eq_none]

lemma allPairs_struct {m m' : ValueMap (Value n)} (hd : m.Distinct) (hd' : m'.Distinct) :
    (m.length = m'.length ∧ AllPairs P (m.map fun e => (m'.get? e.1).map fun v => (e.2, v))) ↔
      ∀ k, Option.Rel P (m.get? k) (m'.get? k) := by
  constructor
  · rintro ⟨hlen, hall⟩
    have hentry : ∀ e ∈ m, ∃ v, m'.get? e.1 = some v ∧ P e.2 v := by
      intro e he
      obtain ⟨x, y, heq, hP⟩ := hall _ (mem_map_of_mem he)
      obtain ⟨v, hv, hpair⟩ := Option.map_eq_some_iff.1 heq
      obtain ⟨rfl, rfl⟩ := Prod.mk.inj hpair
      exact ⟨_, hv, hP⟩
    have hsub : (m.map fun e => asciiFold e.1) ⊆ m'.map fun e => asciiFold e.1 := by
      intro f hf
      obtain ⟨e, he, rfl⟩ := mem_map.1 hf
      obtain ⟨v, hv, -⟩ := hentry e he
      exact mem_folds_iff.2 (by rw [hv]; rfl)
    -- distinct keys, as many on both sides: none is left over on the right
    have hperm : (m.map fun e => asciiFold e.1).Perm (m'.map fun e => asciiFold e.1) :=
      (subperm_of_subset hd hsub).perm_of_length_le (by simp [hlen])
    intro k
    by_cases hk : asciiFold k ∈ m.map fun e => asciiFold e.1
    · obtain ⟨v, hv, k', hfold, hmem⟩ := ValueMap.exists_get?_of_mem hk
      obtain ⟨w, hw, hP⟩ := hentry _ hmem
      rw [hv, ValueMap.get?_congr hfold.symm, hw]
      exact .some hP
    · rw [ValueMap.get?_eq_none_iff.2 hk,
        ValueMap.get?_eq_none_iff.2 fun h => hk (hperm.mem_iff.2 h)]
      exact .none
  · intro hrel
    have hsome : ∀ k, (m.get? k).isSome = (m'.get? k).isSome := by
      intro k
      have hk := hrel k
      cases hm : m.get? k <;> cases hm' : m'.get? k <;> rw [hm, hm'] at hk <;>
        first | rfl | cases hk
    have hmem : ∀ f, f ∈ m.map (fun e => asciiFold e.1) ↔ f ∈ m'.map fun e => asciiFold e.1 := by
      intro f
      constructor
      · intro hf
        obtain ⟨e, he, rfl⟩ := mem_map.1 hf
        exact mem_folds_iff.2 (hsome e.1 ▸ mem_folds_iff.1 hf)
      · intro hf
        obtain ⟨e, he, rfl⟩ := mem_map.1 hf
        exact mem_folds_iff.2 ((hsome e.1).symm ▸ mem_folds_iff.1 hf)
    have hperm := (perm_ext_iff_of_nodup hd hd').2 hmem
    refine ⟨by simpa using hperm.length_eq, fun s hs => ?_⟩
    obtain ⟨e, he, rfl⟩ := mem_map.1 hs
    have hget := hrel e.1
    rw [ValueMap.get?_of_mem hd he] at hget
    cases hv : m'.get? e.1 with
    | none =>
      rw [hv] at hget
      cases hget
    | some v =>
      rw [hv] at hget
      cases hget with
      | some hP => exact ⟨e.2, v, rfl, hP⟩

lemma allPairs_data {data data' : List (List (Value n))} {rows : Nat}
    (hlen : data.length = data'.length) (h : ∀ col ∈ data, col.length = rows)
    (h' : ∀ col ∈ data', col.length = rows) :
    AllPairs P ((data.zip data').flatMap fun p => (p.1.zip p.2).map some) ↔
    Forall₂ (Forall₂ P) data data' := by
  rw [forall₂_iff_zip]
  have hcols : ∀ {c c'}, (c, c') ∈ data.zip data' → c.length = c'.length := fun hmem =>
    (h _ (of_mem_zip hmem).1).trans (h' _ (of_mem_zip hmem).2).symm
  constructor
  · intro hall
    refine ⟨hlen, fun {c c'} hmem => (allPairs_zip (hcols hmem)).1 fun s hs => ?_⟩
    exact hall s (mem_flatMap.2 ⟨_, hmem, hs⟩)
  · rintro ⟨-, hall⟩ s hs
    obtain ⟨p, hp, hs⟩ := mem_flatMap.1 hs
    exact (allPairs_zip (hcols hp)).2 (hall hp) s hs

lemma allPairs_contents (c c' : Container n) : AllPairs P (contents c c') ↔ Alike P c c' := by
  cases c <;> cases c'
  case struct.struct m hd m' hd' =>
    rw [contents, Alike, ← allPairs_struct hd hd']
    split_ifs with hlen
    · exact iff_of_false not_allPairs_none fun h => hlen h.1
    · exact (and_iff_right (not_not.1 hlen)).symm
  case array.array xs ys =>
    rw [contents, Alike]
    split_ifs with hlen
    · exact iff_of_false not_allPairs_none fun h => hlen h.length_eq
    · exact allPairs_zip (not_not.1 hlen)
  case query.query q hq q' hq' =>
    have hnames : (∀ p ∈ q.columns.zip q'.columns, eqIgnoreAsciiCase p.1 p.2 = true) ↔
        ∀ {c c'}, (c, c') ∈ q.columns.zip q'.columns → asciiFold c = asciiFold c' := by
      simp
    rw [contents, Alike, forall₂_iff_zip]
    split_ifs with hshape hfold
    · refine iff_of_false not_allPairs_none ?_
      rintro ⟨⟨hcols, -⟩, hdata⟩
      refine hshape.elim (fun h => h hcols) fun h => h ?_
      rw [QueryData.rowCount, QueryData.rowCount]
      generalize q.data = data at hdata
      generalize q'.data = data' at hdata
      cases hdata with
      | nil => rfl
      | cons hcol _ => exact hcol.length_eq
    · refine iff_of_false not_allPairs_none ?_
      rintro ⟨⟨-, hsame⟩, -⟩
      rw [Bool.not_eq_true', ← Bool.not_eq_true, all_eq_true] at hfold
      exact hfold (hnames.2 hsame)
    · rw [not_or, not_not, not_not] at hshape
      rw [Bool.not_eq_true, Bool.not_eq_false', all_eq_true] at hfold
      have hlen : q.data.length = q'.data.length := by rw [← hq.aligned, ← hq'.aligned, hshape.1]
      rw [allPairs_data hlen hq.level fun col hcol => (hq'.level col hcol).trans hshape.2.symm]
      exact (and_iff_right ⟨hshape.1, hnames.1 hfold⟩).symm
  all_goals exact iff_of_false not_allPairs_none id

lemma leafEq_iff (nocase : Bool) (x y : Leaf) : leafEq nocase x y = true ↔ match x, y with
    | .instance_ i, .instance_ j => i = j
    | .scalar s, .scalar t => if nocase then asciiFold s = asciiFold t else s = t
    | _, _ => False := by
  cases x <;> cases y <;> cases nocase <;> simp [leafEq]

lemma leafEq_refl (nocase : Bool) (x : Leaf) : leafEq nocase x x = true := by
  rw [leafEq_iff]
  cases x <;> cases nocase <;> rfl

lemma leafEq_symm (h : leafEq nocase x y = true) : leafEq nocase y x = true := by
  rw [leafEq_iff] at h ⊢
  cases x <;> cases y <;> cases nocase <;> first | exact h.elim | exact h.symm

lemma leafEq_trans {z : Leaf} (h : leafEq nocase x y = true)
    (h' : leafEq nocase y z = true) : leafEq nocase x z = true := by
  rw [leafEq_iff] at h h' ⊢
  cases x <;> cases y <;> cases z <;> cases nocase <;>
    first | exact h.elim | exact h'.elim | exact h.trans h'

lemma Alike.refl (hP : ∀ x, P x x) (c : Container n) : Alike P c c := by
  cases c with
  | struct m hd =>
    intro k
    cases m.get? k with
    | none => exact .none
    | some v => exact .some (hP v)
  | array xs => exact forall₂_same.2 fun x _ => hP x
  | query q hq =>
    exact ⟨forall₂_same.2 fun _ _ => rfl,
      forall₂_same.2 fun col _ => forall₂_same.2 fun x _ => hP x⟩

lemma Alike.flip (h : Alike P c c') : Alike (fun x y => P y x) c' c := by
  cases c <;> cases c'
  case struct.struct m _ m' _ =>
    intro k
    have hk := h k
    cases hm : m.get? k <;> cases hm' : m'.get? k <;> rw [hm, hm'] at hk <;> cases hk
    · exact .none
    · next hP => exact .some hP
  case array.array => exact Forall₂.flip h
  case query.query =>
    refine ⟨(Forall₂.flip h.1).imp fun _ _ => Eq.symm, ?_⟩
    exact (Forall₂.flip h.2).imp fun _ _ hcol => Forall₂.flip hcol
  all_goals exact h.elim

lemma forall₂_trans {P Q S : α → α → Prop} (hPQ : ∀ x y z, P x y → Q y z → S x z) :
    ∀ {xs ys zs : List α}, Forall₂ P xs ys → Forall₂ Q ys zs → Forall₂ S xs zs
  | _, _, _, .nil, .nil => .nil
  | _, _, _, .cons h hs, .cons h' hs' => .cons (hPQ _ _ _ h h') (forall₂_trans hPQ hs hs')

lemma Alike.trans {Q S : Value n → Value n → Prop} (hPQ : ∀ x y z, P x y → Q y z → S x z)
    {c1 c2 c3 : Container n} (h : Alike P c1 c2) (h' : Alike Q c2 c3) : Alike S c1 c3 := by
  cases c1 <;> cases c2
  case struct.struct m1 _ m2 _ =>
    cases c3 with
    | struct m3 hd3 =>
      intro k
      have h1 := h k
      have h2 := h' k
      cases hm1 : m1.get? k <;> cases hm2 : m2.get? k <;> rw [hm1, hm2] at h1 <;> cases h1
      · rw [hm2] at h2
        cases hm3 : m3.get? k <;> rw [hm3] at h2 <;> cases h2
        exact .none
      · next hP =>
        rw [hm2] at h2
        cases hm3 : m3.get? k <;> rw [hm3] at h2 <;> cases h2
        next hQ => exact .some (hPQ _ _ _ hP hQ)
    | _ => exact h'.elim
  case array.array =>
    cases c3 with
    | array => exact forall₂_trans hPQ h h'
    | _ => exact h'.elim
  case query.query =>
    cases c3 with
    | query =>
      have hcols : ∀ c1 c2 c3 : List (Value n), Forall₂ P c1 c2 → Forall₂ Q c2 c3 →
          Forall₂ S c1 c3 := fun _ _ _ hcol hcol' => forall₂_trans hPQ hcol hcol'
      have hnames : ∀ c1 c2 c3 : String, asciiFold c1 = asciiFold c2 → asciiFold c2 = asciiFold c3 →
          asciiFold c1 = asciiFold c3 := fun _ _ _ => Eq.trans
      exact ⟨forall₂_trans hnames h.1 h'.1, forall₂_trans hcols h.2 h'.2⟩
    | _ => exact h'.elim
  all_goals exact h.elim

lemma valuesBisimilar_equivalence (g : Graph n) (nocase : Bool) :
    Equivalence (ValuesBisimilar g nocase) where
  refl x := by
    have hrefl : ∀ v : Value n, Related (leafEq nocase) Eq v v := by
      intro v
      cases v
      · exact leafEq_refl nocase _
      · exact Eq.refl _
    exact ⟨Eq, fun a b hab => hab ▸ Alike.refl hrefl (g a), hrefl x⟩
  symm := by
    rintro x y ⟨R, hR, hxy⟩
    have hflip : ∀ {v w : Value n}, Related (leafEq nocase) R w v →
        Related (leafEq nocase) (fun a b => R b a) v w := by
      intro v w h
      cases v <;> cases w
      · exact leafEq_symm h
      all_goals exact h
    refine ⟨fun a b => R b a, fun a b hab => ?_, hflip hxy⟩
    exact Alike.trans (P := fun v w => Related (leafEq nocase) R w v) (Q := Eq)
      (fun _ _ _ h heq => heq ▸ hflip h) (hR b a hab).flip (.refl (fun _ => rfl) (g b))
  trans := by
    rintro x y z ⟨R, hR, hxy⟩ ⟨R', hR', hyz⟩
    have hcomp : ∀ u v w : Value n, Related (leafEq nocase) R u v → Related (leafEq nocase) R' v w →
        Related (leafEq nocase) (Relation.Comp R R') u w := by
      intro u v w h h'
      cases u <;> cases v <;> cases w
      case leaf.leaf.leaf => exact leafEq_trans h h'
      case node.node.node b _ => exact ⟨_, h, h'⟩
      all_goals first | exact h.elim | exact h'.elim
    refine ⟨Relation.Comp R R', ?_, hcomp x y z hxy hyz⟩
    rintro a c ⟨b, hab, hbc⟩
    exact Alike.trans hcomp (hR a b hab) (hR' b c hbc)

/-! ## Deep equality -/

lemma bisimilar_iff (g : Graph n) (nocase : Bool) (x y : Value n) :
    Bisimilar (leafEq nocase) (fun a b => contents (g a) (g b)) x y ↔
    ValuesBisimilar g nocase x y := by
  refine exists_congr fun R => and_congr_left fun _ => ?_
  exact forall₂_congr fun a b => imp_congr_right fun _ => allPairs_contents (g a) (g b)

lemma none_mem_contents (h : sameKind c c' = false) : none ∈ contents c c' := by
  cases c <;> cases c' <;> first | exact mem_singleton.2 rfl | cases h

/-- **Deep equality**: an answer says whether the two values are bisimilar, with a frame for every
pair of containers there is one, and without there is the error; being bisimilar is an
equivalence. -/
theorem deepEqual_spec (g : Graph n) (nocase : Bool) :
    (∀ frames x y answer, deepEqual g nocase frames x y = .ok answer →
      (answer = true ↔ ValuesBisimilar g nocase x y)) ∧
    (∀ frames x y, n * n < frames → ∃ answer, deepEqual g nocase frames x y = .ok answer) ∧
    (∀ frames x y text, deepEqual g nocase frames x y = .error text → text = tooDeep) ∧
    Equivalence (ValuesBisimilar g nocase) := by
  refine ⟨fun frames x y answer h => ?_, fun frames x y hframes => ?_, fun frames x y text h => ?_,
    valuesBisimilar_equivalence g nocase⟩
  · rw [deepEqual] at h
    split at h
    · next b seen hcmp =>
      cases h
      rw [← bisimilar_iff]
      refine compare_iff (fun a b hk => none_mem_contents hk) (leafEq_refl nocase)
        (fun a s hs => ?_)
        hcmp
      obtain ⟨v, w, rfl, heq⟩ := (allPairs_contents (g a) (g a)).2 (.refl (fun _ => rfl) (g a)) s hs
      exact ⟨v, by rw [heq]⟩
    · cases h
  · have hsome : (compare (leafEq nocase) (fun a b => sameKind (g a) (g b))
        (fun a b => contents (g a) (g b)) frames x y []).isSome :=
      compare_isSome (by rwa [Fintype.card_fin]) x y
    obtain ⟨⟨b, seen⟩, hcmp⟩ := Option.isSome_iff_exists.1 hsome
    exact ⟨b, by rw [deepEqual, hcmp]⟩
  · rw [deepEqual] at h
    split at h
    · cases h
    · exact (Except.error.inj h).symm

def mirrors : Graph 2 := fun a => .array [.node a.rev]

theorem deepEqual_spec_mirrors : ∃ answer, deepEqual mirrors false 5 (.node 0) (.node 1) =
    .ok answer ∧
      (answer = true ↔ ValuesBisimilar mirrors false (.node 0) (.node 1)) := by
  obtain ⟨hright, hanswer, -, -⟩ := deepEqual_spec mirrors false
  obtain ⟨answer, h⟩ := hanswer 5 (.node 0) (.node 1) (by decide)
  exact ⟨answer, h, hright _ _ _ _ h⟩

/-- **An answer takes stack**: the two are bisimilar, and with no room for a pair there is none. -/
theorem deepEqual_refused : deepEqual mirrors false 0 (.node 0) (.node 1) = .error tooDeep ∧
      ValuesBisimilar mirrors false (.node 0) (.node 1) := by
  refine ⟨rfl, fun _ _ => True, fun a b _ => ?_, trivial⟩
  exact List.Forall₂.cons trivial .nil

end RustCfml.DeepEqual
