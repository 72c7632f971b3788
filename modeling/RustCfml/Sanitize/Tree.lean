import RustCfml.Lib.Arena
import RustCfml.Sanitize.Attributes
import RustCfml.Sanitize.Stylesheet

/-!
# Sanitising a tree

What comes out is what one recursive rewriting of the tree gives (`sanitizeTree_eq_rewrite`):
**a node's fate depends on the node and, for a text, on its parent**; the order in which the
lists are worked off does not show.
-/

namespace RustCfml.Sanitize

open Arena List

inductive HtmlNode where
  | text (s : List Char)
  | element (e : Element)
  | comment
  | processingInstruction
  | doctype

/-- A parsed fragment: what is under its root. -/
structure HtmlTree where
  forest : Forest HtmlNode
  distinct : forest.ids.Nodup

def HtmlNode.editAttrs (edits : List AttributeEdit) : HtmlNode → HtmlNode
  | .element e => .element (e.edit edits)
  | v => v

def HtmlNode.setText (s : List Char) : HtmlNode → HtmlNode
  | .text _ => .text s
  | v => v

namespace Policy

variable (policy : Policy)

def disposition : HtmlNode → Disposition
  | .element e => (policy.decide e).1
  | .text _ => .keep
  | .comment | .processingInstruction | .doctype => .drop

def keptStyle : HtmlNode → Bool
  | .element e => (policy.decide e).1 == .keep && e.tag == "style".toList
  | _ => false

/-! ## The lists -/

/-- The nodes to take away, in the order of the traversal. -/
def toDrop (f : Forest HtmlNode) : List Nat :=
  f.nodes.filterMap fun n => if policy.disposition n.2.1 = .drop then some n.1 else none

def toUnwrap (f : Forest HtmlNode) : List (Nat × List Nat) :=
  f.nodes.filterMap fun n =>
    if policy.disposition n.2.1 = .unwrap then some (n.1, n.2.2.roots) else none

def nodeEdits : HtmlNode → Option (List AttributeEdit)
  | .element e =>
    if (policy.decide e).1 = .keep ∧ (policy.decide e).2 ≠ [] then some (policy.decide e).2
    else none
  | _ => none

def attributeEditList (f : Forest HtmlNode) : List (Nat × List AttributeEdit) :=
  f.nodes.filterMap fun n => (policy.nodeEdits n.2.1).map fun edits => (n.1, edits)

def textBodies : Forest HtmlNode → List (Nat × List Char)
  | .nil => []
  | .node i (.text t) _ r => (i, filterStylesheet policy t) :: textBodies r
  | .node _ _ _ r => textBodies r

def styleBodies (f : Forest HtmlNode) : List (Nat × List Char) :=
  f.nodes.flatMap fun n => if policy.keptStyle n.2.1 then policy.textBodies n.2.2 else []

/-- The collected decisions, worked off by node id. -/
def sanitizeTree (f : Forest HtmlNode) : Forest HtmlNode :=
  let edited := (policy.attributeEditList f).foldl (fun g e => g.update e.1 (.editAttrs e.2)) f
  let filtered := (policy.styleBodies f).foldl (fun g e => g.update e.1 (.setText e.2)) edited
  let unwrapped := (policy.toUnwrap f).foldl Forest.unwrap filtered
  (policy.toDrop f).foldl (fun g x => g.detach x) unwrapped

def valueAfter (f : Forest HtmlNode) (i : Nat) (v : HtmlNode) : HtmlNode :=
  (policy.styleBodies f).foldl (fun v e => if i = e.1 then HtmlNode.setText e.2 v else v)
    ((policy.attributeEditList f).foldl
      (fun v e => if i = e.1 then HtmlNode.editAttrs e.2 v else v) v)

def rewriteNode (inStyle : Bool) : HtmlNode → HtmlNode
  | .text t => .text (if inStyle then filterStylesheet policy t else t)
  | .element e => .element (e.edit (policy.decide e).2)
  | v => v

/-- `inStyle`: the parent was a kept `style` element. -/
def rewrite (inStyle : Bool) : Forest HtmlNode → Forest HtmlNode
  | .nil => .nil
  | .node i v c r =>
    match policy.disposition v with
    | .keep => .node i (policy.rewriteNode inStyle v) (rewrite (policy.keptStyle v) c)
        (rewrite inStyle r)
    | .drop => rewrite inStyle r
    | .unwrap => rewrite (policy.keptStyle v) c ++ rewrite inStyle r

/-- What is done to each node is what its own decision says. -/
def Agrees (dropped unwrapped : Nat → Bool) (h : Nat → HtmlNode → HtmlNode) :
    Bool → Forest HtmlNode → Prop
  | _, .nil => True
  | inStyle, .node i v c r =>
    (dropped i = true ↔ policy.disposition v = .drop) ∧
    (unwrapped i = true ↔ policy.disposition v = .unwrap) ∧
    (policy.disposition v = .keep → h i v = policy.rewriteNode inStyle v) ∧
    Agrees dropped unwrapped h (policy.keptStyle v) c ∧ Agrees dropped unwrapped h inStyle r

variable {policy}

lemma passes_eq_rewrite {dropped unwrapped : Nat → Bool} {h : Nat → HtmlNode → HtmlNode}
    {inStyle : Bool} {f : Forest HtmlNode} (hf : policy.Agrees dropped unwrapped h inStyle f) :
    ((f.mapValues h).splice unwrapped).prune dropped = policy.rewrite inStyle f := by
  induction f generalizing inStyle with
  | nil => rfl
  | node i v c r ihc ihr =>
    obtain ⟨hdrop, hunwrap, hkeep, hc, hr⟩ := hf
    rw [Forest.mapValues, Forest.splice, rewrite]
    cases hd : policy.disposition v with
    | keep =>
      have hnd : ¬dropped i = true := fun h => by rw [hdrop, hd] at h; exact absurd h (by simp)
      have hnu : ¬unwrapped i = true := fun h => by rw [hunwrap, hd] at h; exact absurd h (by simp)
      rw [if_neg hnu, Forest.prune, if_neg hnd, ihc hc, ihr hr, hkeep hd]
    | drop =>
      have hnu : ¬unwrapped i = true := fun h => by rw [hunwrap, hd] at h; exact absurd h (by simp)
      rw [if_neg hnu, Forest.prune, if_pos (hdrop.2 hd), ihr hr]
    | unwrap =>
      rw [if_pos (hunwrap.2 hd), Forest.prune_append, ihc hc, ihr hr]

/-! ## The lists say what the rewriting does -/

section

variable {β : Type} {g : β → HtmlNode → HtmlNode} {es : List (Nat × β)} {i : Nat}

lemma foldl_edit_fixed {w : HtmlNode} (h : ∀ e ∈ es, e.1 = i → g e.2 w = w) :
    es.foldl (fun v e => if i = e.1 then g e.2 v else v) w = w := by
  induction es with
  | nil => rfl
  | cons e es ih =>
    rw [forall_mem_cons] at h
    rw [foldl_cons]
    split
    next hi => rw [h.1 hi.symm, ih h.2]
    next => exact ih h.2

lemma foldl_edit_unique {v : HtmlNode} {x : β} (hes : (es.map Prod.fst).Nodup)
    (hx : (i, x) ∈ es) : es.foldl (fun v e => if i = e.1 then g e.2 v else v) v = g x v := by
  obtain ⟨before, after, rfl⟩ := append_of_mem hx
  rw [map_append, map_cons, nodup_append', nodup_cons] at hes
  obtain ⟨-, ⟨hafter, -⟩, hdis⟩ := hes
  have hother {ds : List (Nat × β)} (h : i ∉ ds.map Prod.fst) (w : HtmlNode) :
      ds.foldl (fun v e => if i = e.1 then g e.2 v else v) w = w :=
    foldl_edit_fixed fun e he hei => absurd (hei ▸ mem_map_of_mem he) h
  rw [foldl_append, foldl_cons, hother fun h => hdis h mem_cons_self, if_pos rfl, hother hafter]

lemma foldl_edit_of_mem {v w : HtmlNode} (hmem : ∃ e ∈ es, e.1 = i)
    (h : ∀ e ∈ es, e.1 = i → g e.2 v = w ∧ g e.2 w = w) :
    es.foldl (fun v e => if i = e.1 then g e.2 v else v) v = w := by
  induction es with
  | nil =>
    obtain ⟨e, he, -⟩ := hmem
    exact absurd he not_mem_nil
  | cons e es ih =>
    rw [forall_mem_cons] at h
    rw [foldl_cons]
    split
    next hi =>
      rw [(h.1 hi.symm).1]
      exact foldl_edit_fixed fun e he hei => (h.2 e he hei).2
    next hi =>
      obtain ⟨e', he', hei⟩ := hmem
      rcases mem_cons.1 he' with rfl | he'
      · exact absurd hei.symm hi
      · exact ih ⟨e', he', hei⟩ h.2

end

section

variable {f : Forest HtmlNode}

variable {e : Nat × List Char} {n : Nat × HtmlNode × Forest HtmlNode} {inStyle : Bool}

lemma eq_of_mem_nodes (hf : f.ids.Nodup) {m : Nat × HtmlNode × Forest HtmlNode}
    (hn : n ∈ f.nodes) (hm : m ∈ f.nodes) (h : n.1 = m.1) : n = m := by
  have hfind := Forest.find_of_mem_nodes hf hn
  rw [h, Forest.find_of_mem_nodes hf hm] at hfind
  exact Prod.ext h (Option.some.inj hfind).symm

lemma mem_toDrop (hf : f.ids.Nodup)
    (hn : n ∈ f.nodes) : n.1 ∈ policy.toDrop f ↔ policy.disposition n.2.1 = .drop := by
  rw [toDrop, mem_filterMap]
  constructor
  · rintro ⟨m, hm, heq⟩
    split at heq
    next hd => exact eq_of_mem_nodes hf hm hn (Option.some.inj heq) ▸ hd
    next => exact absurd heq (by simp)
  · exact fun hd => ⟨n, hn, if_pos hd⟩

lemma mem_toUnwrap (hf : f.ids.Nodup) (hn : n ∈ f.nodes) :
    n.1 ∈ (policy.toUnwrap f).map Prod.fst ↔ policy.disposition n.2.1 = .unwrap := by
  rw [toUnwrap, map_filterMap, mem_filterMap]
  constructor
  · rintro ⟨m, hm, heq⟩
    split at heq
    next hd => exact eq_of_mem_nodes hf hm hn (Option.some.inj heq) ▸ hd
    next => exact absurd heq (by simp)
  · exact fun hd => ⟨n, hn, by rw [if_pos hd]; rfl⟩

lemma editAttrs_eq (hf : f.ids.Nodup) {i : Nat} {e : Element} {c : Forest HtmlNode}
    (hn : (i, .element e, c) ∈ f.nodes) (hkeep : (policy.decide e).1 = .keep) :
    (policy.attributeEditList f).foldl
      (fun v d => if i = d.1 then HtmlNode.editAttrs d.2 v else v) (.element e)
        = .element (e.edit (policy.decide e).2) := by
  by_cases hnil : (policy.decide e).2 = []
  · -- no entry, and nothing to do
    rw [hnil]
    refine foldl_edit_fixed fun d hd hdi => ?_
    obtain ⟨m, hm, heq⟩ := mem_filterMap.1 hd
    obtain ⟨edits, hedits, rfl⟩ := Option.map_eq_some_iff.1 heq
    obtain rfl := eq_of_mem_nodes hf hm hn hdi
    rw [nodeEdits, if_neg fun h => h.2 hnil] at hedits
    exact absurd hedits (by simp)
  · have hmem : (i, (policy.decide e).2) ∈ policy.attributeEditList f := by
      refine mem_filterMap.2 ⟨_, hn, ?_⟩
      rw [nodeEdits, if_pos ⟨hkeep, hnil⟩]
      rfl
    have hnodup : ((policy.attributeEditList f).map Prod.fst).Nodup := by
      have hsub : ((policy.attributeEditList f).map Prod.fst).Sublist (f.nodes.map Prod.fst) := by
        rw [attributeEditList]
        induction f.nodes with
        | nil => exact Sublist.refl _
        | cons n ns ih =>
          cases hne : policy.nodeEdits n.2.1 with
          | none => simpa [hne] using ih.cons n.1
          | some edits => simpa [hne] using ih.cons_cons n.1
      rw [Forest.map_fst_nodes] at hsub
      exact hsub.nodup hf
    exact foldl_edit_unique hnodup hmem

variable {f : Forest HtmlNode}

lemma id_textBodies (he : e ∈ policy.textBodies f) : e.1 ∈ f.ids := by
  induction f with
  | nil => exact absurd he not_mem_nil
  | node i v c r _ ih =>
    rw [Forest.mem_ids_node]
    cases v with
    | text t =>
      rcases mem_cons.1 he with rfl | he
      · exact Or.inl rfl
      · exact Or.inr (Or.inr (ih he))
    | element e | comment | processingInstruction | doctype => exact Or.inr (Or.inr (ih he))

lemma styleBodies_node (i : Nat) (v : HtmlNode) (c r : Forest HtmlNode) :
    policy.styleBodies (.node i v c r) =
      ((if policy.keptStyle v then policy.textBodies c else []) ++ policy.styleBodies c)
        ++ policy.styleBodies r := by
  rw [styleBodies, Forest.nodes, flatMap_cons, flatMap_append, append_assoc]
  rfl

lemma id_styleBodies (he : e ∈ policy.styleBodies f) : e.1 ∈ f.ids := by
  obtain ⟨n, hn, he⟩ := mem_flatMap.1 he
  split at he
  next => exact Forest.ids_children_subset hn (id_textBodies he)
  next => exact absurd he not_mem_nil

def bodiesIn (policy : Policy) (inStyle : Bool) (f : Forest HtmlNode) : List (Nat × List Char) :=
  (if inStyle then policy.textBodies f else []) ++ policy.styleBodies f

lemma id_bodiesIn (he : e ∈ policy.bodiesIn inStyle f) : e.1 ∈ f.ids := by
  rcases mem_append.1 he with he | he
  · split at he
    next => exact id_textBodies he
    next => exact absurd he not_mem_nil
  · exact id_styleBodies he

lemma mem_bodiesIn_node {i : Nat} {v : HtmlNode} {c r : Forest HtmlNode} :
    e ∈ policy.bodiesIn inStyle (.node i v c r) ↔
      (inStyle = true ∧ ∃ t, v = .text t ∧ e = (i, filterStylesheet policy t)) ∨
        e ∈ policy.bodiesIn (policy.keptStyle v) c ∨ e ∈ policy.bodiesIn inStyle r := by
  have htop : e ∈ policy.textBodies (.node i v c r) ↔
      (∃ t, v = .text t ∧ e = (i, filterStylesheet policy t)) ∨ e ∈ policy.textBodies r := by
    cases v <;> simp [textBodies]
  simp [bodiesIn, styleBodies_node]
  cases inStyle with
  | false => simp [or_assoc]
  | true =>
    simp [htop, or_assoc]
    exact or_congr_right (or_left_comm.trans (or_congr_right or_left_comm))

theorem agrees_of_mem (hf : f.ids.Nodup) {g : Forest HtmlNode} (hg : g.ids.Nodup)
    (hsub : ∀ n ∈ g.nodes, n ∈ f.nodes) (hstyle : ∀ e : Nat × List Char, e.1 ∈ g.ids →
      (e ∈ policy.styleBodies f ↔ e ∈ policy.bodiesIn inStyle g)) :
    policy.Agrees (fun i => (policy.toDrop f).contains i)
    (fun i => ((policy.toUnwrap f).map Prod.fst).contains i)
      (policy.valueAfter f) inStyle g := by
  induction g generalizing inStyle with
  | nil => trivial
  | node i v c r ihc ihr =>
    obtain ⟨⟨hic, hir⟩, hc, hr, hdis⟩ := Forest.nodup_ids_node.1 hg
    have hn := hsub (i, v, c) mem_cons_self
    refine ⟨?_, ?_, fun hkeep => ?_, ihc hc ?_ ?_, ihr hr ?_ ?_⟩
    · rw [contains_iff_mem]
      exact mem_toDrop hf hn
    · rw [contains_iff_mem]
      exact mem_toUnwrap hf hn
    · cases v with
      | text t =>
        have htext : (policy.attributeEditList f).foldl
            (fun v e => if i = e.1 then HtmlNode.editAttrs e.2 v else v) (.text t) = .text t :=
          foldl_edit_fixed fun _ _ _ => rfl
        rw [valueAfter, htext]
        -- the entries of this text are those made for it by its parent
        have hentry (s : List Char) : (i, s) ∈ policy.styleBodies f ↔
            inStyle = true ∧ s = filterStylesheet policy t := by
          rw [hstyle (i, s) (by simp [Forest.ids]), mem_bodiesIn_node]
          constructor
          · rintro (⟨hin, t', ht, hs⟩ | hbelow | hafter)
            · exact ⟨hin, by rw [HtmlNode.text.inj ht]; exact (Prod.mk.inj hs).2⟩
            · exact absurd (id_bodiesIn hbelow) hic
            · exact absurd (id_bodiesIn hafter) hir
          · rintro ⟨hin, rfl⟩
            exact Or.inl ⟨hin, t, rfl, rfl⟩
        cases inStyle with
        | false =>
          refine foldl_edit_fixed fun e he hei => ?_
          obtain ⟨j, s⟩ := e
          obtain rfl : j = i := hei
          exact absurd ((hentry s).1 he).1 (by simp)
        | true =>
          refine foldl_edit_of_mem ⟨_, (hentry _).2 ⟨rfl, rfl⟩, rfl⟩ fun e he hei => ?_
          obtain ⟨j, s⟩ := e
          obtain rfl : j = i := hei
          rw [((hentry s).1 he).2]
          exact ⟨rfl, rfl⟩
      | element e =>
        rw [valueAfter, editAttrs_eq hf hn hkeep]
        exact foldl_edit_fixed fun _ _ _ => rfl
      | comment | processingInstruction | doctype => exact absurd hkeep (by simp [disposition])
    · exact fun n hn => hsub n (mem_cons_of_mem _ (mem_append_left _ hn))
    · intro e he
      rw [hstyle e (Forest.mem_ids_node.2 (Or.inr (Or.inl he))), mem_bodiesIn_node]
      constructor
      · rintro (⟨-, t, -, rfl⟩ | hbelow | hafter)
        · exact absurd he hic
        · exact hbelow
        · exact absurd (id_bodiesIn hafter) fun h => hdis he h
      · exact fun h => Or.inr (Or.inl h)
    · exact fun n hn => hsub n (mem_cons_of_mem _ (mem_append_right _ hn))
    · intro e he
      rw [hstyle e (Forest.mem_ids_node.2 (Or.inr (Or.inr he))), mem_bodiesIn_node]
      constructor
      · rintro (⟨-, t, -, rfl⟩ | hbelow | hafter)
        · exact absurd he hir
        · exact absurd (id_bodiesIn hbelow) fun h => hdis h he
        · exact hafter
      · exact fun h => Or.inr (Or.inr h)

/-- **Working off the lists is one rewriting of the tree.** -/
theorem sanitizeTree_eq_rewrite (hf : f.ids.Nodup) :
    policy.sanitizeTree f = policy.rewrite false f := by
  have hstyle : ∀ e : Nat × List Char, e.1 ∈ f.ids →
      (e ∈ policy.styleBodies f ↔ e ∈ policy.bodiesIn false f) := fun e _ => by simp [bodiesIn]
  rw [← passes_eq_rewrite (agrees_of_mem hf hf (fun _ h => h) hstyle), sanitizeTree,
    Forest.updateEach_eq_mapValues,
    Forest.updateEach_eq_mapValues, Forest.mapValues_mapValues, Forest.detachEach_eq_prune,
      Forest.unwrapEach_eq_splice]
  · rfl
  · rwa [Forest.ids_mapValues]
  · -- the children were listed as they are
    intro e he
    obtain ⟨n, hn, heq⟩ := mem_filterMap.1 he
    split at heq
    next =>
      obtain rfl := Option.some.inj heq
      have hfind := Forest.find_mapValues (policy.valueAfter f) n.1 f
      rw [Forest.find_of_mem_nodes hf hn, Option.map_some] at hfind
      exact ⟨_, _, hfind, (Forest.roots_mapValues _ _).symm⟩
    next => exact absurd heq (by simp)
  · -- and no node is listed after one of its children
    rw [toUnwrap]
    refine Pairwise.filterMap _ (fun n m hnm b hb d hd => ?_) (Forest.nodes_pairwise hf)
    split at hb
    next =>
      split at hd
      next =>
        obtain rfl := Option.some.inj hb
        obtain rfl := Option.some.inj hd
        exact hnm
      next => exact absurd hd (by simp)
    next => exact absurd hb (by simp)

end

lemma ids_rewrite_sublist (policy : Policy) (inStyle : Bool) (f : Forest HtmlNode) :
    (policy.rewrite inStyle f).ids <+ f.ids := by
  induction f generalizing inStyle with
  | nil => exact .slnil
  | node i v c r ihc ihr =>
    rw [rewrite, Forest.ids]
    split
    · exact ((ihc _).append (ihr _)).cons_cons i
    · exact (ihr _).trans ((sublist_append_right _ _).cons i)
    · rw [Forest.ids_append]
      exact ((ihc _).append (ihr _)).cons i

/-- **Nothing is added, doubled or put elsewhere**: the nodes that are left are nodes of the parsed
tree, in the order of the document. -/
theorem sanitizeTree_sublist (policy : Policy) (t : HtmlTree) :
    (policy.sanitizeTree t.forest).ids <+ t.forest.ids ∧
    (policy.sanitizeTree t.forest).ids.Nodup := by
  rw [sanitizeTree_eq_rewrite t.distinct]
  have hsub := policy.ids_rewrite_sublist false t.forest
  exact ⟨hsub, t.distinct.sublist hsub⟩

end Policy

end RustCfml.Sanitize
