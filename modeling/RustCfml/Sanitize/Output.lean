import RustCfml.Sanitize.Tree

/-!
# What a sanitised document says

The promise is **not kept for every document**, but for those whose written elements have their
attributes in order, and in which no text comes to stand in a `style` element by unwrapping, where
the stylesheet filter has not seen it.
-/

namespace RustCfml.Sanitize

open Arena List

/-! ## Serialising -/

inductive Token where
  | text (id : Nat) (s : List Char)
  | rawText (id : Nat) (s : List Char)
  | startTag (id : Nat) (e : Element)
  | endTag (id : Nat) (name : String)

def Token.id : Token → Nat
  | .text i _ | .rawText i _ | .startTag i _ | .endTag i _ => i

def isVoid (name : String) : Bool :=
  ["area", "base", "br", "col", "embed", "hr", "img", "input", "link", "meta", "param", "source",
   "track", "wbr"].contains name

/-- The element's text is written as it is. -/
def HtmlNode.isStyle : HtmlNode → Bool
  | .element e => e.name == "style"
  | _ => false

@[local simp] def HtmlNode.isHtml : HtmlNode → Bool
  | .element e => e.name == "html"
  | _ => false

def nodeTokens (raw : Bool) (i : Nat) (v : HtmlNode) (inner : List Token) : List Token :=
  match v with
  | .text s => [if raw then .rawText i s else .text i s]
  | .element e => .startTag i e :: if isVoid e.name then [] else inner ++ [.endTag i e.name]
  | _ => []

def serializeNodes : Bool → Forest HtmlNode → List Token
  | _, .nil => []
  | raw, .node i v c r => nodeTokens raw i v (serializeNodes v.isStyle c) ++ serializeNodes raw r

def serializeChildren : Forest HtmlNode → List Token
  | .nil => []
  | .node i v c r =>
    (if v.isHtml then serializeNodes false c else nodeTokens false i v (serializeNodes v.isStyle c))
      ++ serializeChildren r

def replaceChar (c : Char) (text : String) (s : List Char) : List Char :=
  s.flatMap fun d => if d = c then text.toList else [d]

def escapeText (s : List Char) : List Char :=
  replaceChar '"' "&quot;"
    (replaceChar '>' "&gt;" (replaceChar '<' "&lt;" (replaceChar '&' "&amp;" s)))

def Token.render : Token → List Char
  | .text _ s => escapeText s
  | .rawText _ s => s
  | .startTag _ e =>
    '<' :: e.name.toList
      ++ e.attrs.flatMap (fun a =>
          ' ' :: a.1.localName.toList ++ "=\"".toList ++ escapeText a.2.toList ++ ['"'])
      ++ (if isVoid e.name then " />".toList else ['>'])
  | .endTag _ name => "</".toList ++ name.toList ++ ">".toList

def sanitizeTokens (policy : Policy) (tree : HtmlTree) : List Token :=
  serializeChildren (policy.sanitizeTree tree.forest)

def sanitize (parseFragment : String → HtmlTree) (policy : Policy) (html : String) :
    Except String (List Char) :=
  let output := (sanitizeTokens policy (parseFragment html)).flatMap Token.render
  let size := html.utf8ByteSize
  if html.toList.all fun c => c ≠ '<' ∧ c ≠ '&' ∧ c ≠ '"' then .ok html.toList
  else
    match policy.maxInputSize with
    | some max =>
      if size > max then
        .error s!"input is {size} bytes, which exceeds the policy's maxInputSize of {max}"
      else .ok output
    | none => .ok output

namespace Policy

variable (policy : Policy)

def removedIds : Forest HtmlNode → List Nat
  | .nil => []
  | .node i v c r =>
    (if policy.disposition v = .drop then i :: c.ids else removedIds c) ++ removedIds r

structure PolicyClean (tree : HtmlTree) (out : List Token) : Prop where
  kept : ∀ i e, .startTag i e ∈ out → policy.Keeps e.tag
  attrs : ∀ i e, .startTag i e ∈ out → policy.CleanAttrs e.tag e.attrs
  raw : ∀ i s, .rawText i s ∈ out → OpensNothing s
  removed : ∀ t ∈ out, t.id ∉ policy.removedIds tree.forest

/-! ## When it is kept -/

def writtenHere (v : HtmlNode) (inner : List Element) : List Element :=
  match v with
  | .element e => e :: if isVoid e.name then [] else inner
  | _ => []

def written : Forest HtmlNode → List Element
  | .nil => []
  | .node _ v c r =>
    (match policy.disposition v with
      | .keep => writtenHere v (written c)
      | .unwrap => written c
      | .drop => []) ++ written r

def writtenTop : Forest HtmlNode → List Element
  | .nil => []
  | .node _ v c r =>
    (match policy.disposition v with
      | .keep => if v.isHtml then policy.written c else writtenHere v (policy.written c)
      | .unwrap => writtenTop c
      | .drop => []) ++ writtenTop r

/-- A kept node: a text that is written as it is without having been filtered, or what is in an
    element. -/
def looseHere (raw inStyle : Bool) (v : HtmlNode) (inner : List (List Char)) : List (List Char) :=
  match v with
  | .text t => if raw && !inStyle then [t] else []
  | .element e => if isVoid e.name then [] else inner
  | _ => []

/-- The texts that unwrapping moves into a `style` element. -/
def looseTexts : Bool → Bool → Forest HtmlNode → List (List Char)
  | _, _, .nil => []
  | raw, inStyle, .node _ v c r =>
    (match policy.disposition v with
      | .keep => looseHere raw inStyle v (looseTexts v.isStyle (policy.keptStyle v) c)
      | .unwrap => looseTexts raw (policy.keptStyle v) c
      | .drop => []) ++ looseTexts raw inStyle r

/-- Validated elements that are written have their attributes in order, and no text that unwrapping
moves into a `style` element begins any markup. -/
def Unambiguous (tree : HtmlTree) : Prop :=
  (∀ e ∈ policy.writtenTop tree.forest, policy.action e.tag = .validate →
    policy.Orderly e.tag e.attrs) ∧ ∀ s ∈ policy.looseTexts false false tree.forest, OpensNothing s

end Policy

def startTags (out : List Token) : List Element :=
  out.filterMap fun
    | .startTag _ e => some e
    | _ => none

@[local simp] def rawTexts (out : List Token) : List (List Char) :=
  out.filterMap fun
    | .rawText _ s => some s
    | _ => none

@[simp] lemma startTags_append (a b : List Token) :
    startTags (a ++ b) = startTags a ++ startTags b := filterMap_append

@[simp] lemma rawTexts_append (a b : List Token) : rawTexts (a ++ b) = rawTexts a ++ rawTexts b :=
  filterMap_append

lemma serializeNodes_append (raw : Bool) (f g : Forest HtmlNode) :
    serializeNodes raw (f ++ g) = serializeNodes raw f ++ serializeNodes raw g := by
  induction f with
  | nil => rfl
  | node i v c r _ ih => rw [Forest.node_append, serializeNodes, serializeNodes, ih, append_assoc]

lemma serializeChildren_append (f g : Forest HtmlNode) :
    serializeChildren (f ++ g) = serializeChildren f ++ serializeChildren g := by
  induction f with
  | nil => rfl
  | node i v c r _ ih =>
    rw [Forest.node_append, serializeChildren, serializeChildren, ih, append_assoc]

lemma startTags_nodeTokens (raw : Bool) (i : Nat) (v : HtmlNode) (inner : List Token) :
    startTags (nodeTokens raw i v inner) = Policy.writtenHere v (startTags inner) := by
  cases v with
  | text s => cases raw <;> rfl
  | element e =>
    rw [nodeTokens, Policy.writtenHere]
    split
    · rfl
    · rw [← append_nil (startTags inner), ← cons_append]
      simp [startTags]
  | comment | processingInstruction | doctype => rfl

namespace Policy

variable {policy : Policy}

def rewritten (policy : Policy) (e : Element) : Element := e.edit (policy.decide e).2

lemma writtenHere_rewriteNode (inStyle : Bool) (v : HtmlNode) (inner : List Element) :
    writtenHere (policy.rewriteNode inStyle v) (inner.map policy.rewritten)
      = (writtenHere v inner).map policy.rewritten := by
  cases v with
  | element e =>
    rw [rewriteNode, writtenHere, writtenHere, map_cons]
    congr 1
    split
    next hv => rw [if_pos (show isVoid e.name = true from hv), map_nil]
    next hv => rw [if_neg (show ¬isVoid e.name = true from hv)]
  | text t | comment | processingInstruction | doctype => rfl

lemma isHtml_rewriteNode (inStyle : Bool) (v : HtmlNode) :
    (policy.rewriteNode inStyle v).isHtml = v.isHtml := by
  cases v <;> rfl

lemma isStyle_rewriteNode (inStyle : Bool) (v : HtmlNode) :
    (policy.rewriteNode inStyle v).isStyle = v.isStyle := by
  cases v <;> rfl

lemma startTags_serializeNodes (raw inStyle : Bool) (f : Forest HtmlNode) :
    startTags (serializeNodes raw (policy.rewrite inStyle f)) =
    (policy.written f).map policy.rewritten := by
  induction f generalizing raw inStyle with
  | nil => rfl
  | node i v c r ihc ihr =>
    rw [rewrite, written, map_append, ← ihr raw inStyle]
    cases policy.disposition v with
    | drop => rfl
    | unwrap =>
      dsimp only
      rw [serializeNodes_append, startTags_append, ihc]
    | keep =>
      dsimp only
      rw [serializeNodes, startTags_append, startTags_nodeTokens, ihc, writtenHere_rewriteNode]

lemma startTags_serializeChildren (f : Forest HtmlNode) :
    startTags (serializeChildren (policy.rewrite false f))
      = (policy.writtenTop f).map policy.rewritten := by
  induction f with
  | nil => rfl
  | node i v c r ihc ihr =>
    rw [rewrite, writtenTop, map_append, ← ihr]
    cases hd : policy.disposition v with
    | drop => rfl
    | unwrap =>
      have hstyle : policy.keptStyle v = false := by cases v <;> simp_all [disposition, keptStyle]
      dsimp only
      rw [hstyle, serializeChildren_append, startTags_append, ihc]
    | keep =>
      dsimp only
      rw [serializeChildren, startTags_append, isHtml_rewriteNode]
      split
      · rw [startTags_serializeNodes]
      · rw [startTags_nodeTokens, startTags_serializeNodes, writtenHere_rewriteNode]

lemma rawTexts_serializeNodes (raw inStyle : Bool) (f : Forest HtmlNode) :
    (∀ s ∈ rawTexts (serializeNodes raw (policy.rewrite inStyle f)), OpensNothing s) ↔
      ∀ s ∈ policy.looseTexts raw inStyle f, OpensNothing s := by
  induction f generalizing raw inStyle with
  | nil => exact Iff.rfl
  | node i v c r ihc ihr =>
    rw [rewrite, looseTexts, forall_mem_append, ← ihr raw inStyle]
    cases policy.disposition v with
    | drop => simp
    | unwrap =>
      dsimp only
      rw [serializeNodes_append, rawTexts_append, forall_mem_append, ihc]
    | keep =>
      dsimp only
      rw [serializeNodes, rawTexts_append, forall_mem_append, isStyle_rewriteNode]
      refine and_congr_left fun _ => ?_
      cases v with
      | text t =>
        cases raw <;> cases inStyle <;>
          simp [rewriteNode, nodeTokens, looseHere, filterStylesheet_opens_nothing]
      | element e =>
        rw [rewriteNode, nodeTokens, looseHere]
        by_cases hv : isVoid e.name = true
        · rw [if_pos (show isVoid (e.edit (policy.decide e).2).name = true from hv), if_pos hv]
          simp
        · rw [if_neg (show ¬isVoid (e.edit (policy.decide e).2).name = true from hv),
            if_neg hv, ← ihc]
          simp
      | comment | processingInstruction | doctype => simp [rewriteNode, nodeTokens, looseHere]

lemma rawTexts_serializeChildren (f : Forest HtmlNode) :
    rawTexts (serializeChildren f) = rawTexts (serializeNodes false f) := by
  induction f with
  | nil => rfl
  | node i v c r _ ih =>
    rw [serializeChildren, serializeNodes, rawTexts_append, rawTexts_append, ih]
    split
    next hhtml =>
      cases v with
      | element e =>
        have hname : e.name = "html" := by simpa using hhtml
        have hstyle : (HtmlNode.element e).isStyle = false := by
          rw [HtmlNode.isStyle, hname]
          decide
        have hvoid : isVoid e.name = false := by
          rw [hname]
          decide
        rw [hstyle, nodeTokens, hvoid]
        simp
      | text t => exact absurd hhtml (by simp)
      | comment | processingInstruction | doctype =>
        exact absurd hhtml (by simp)
    next => rfl

variable {f : Forest HtmlNode} {e : Element} {t : Token}

lemma id_nodeTokens {raw : Bool} {i : Nat} {v : HtmlNode} {inner : List Token}
    (ht : t ∈ nodeTokens raw i v inner) : t.id = i ∨ t ∈ inner := by
  cases v with
  | text s =>
    rw [nodeTokens, mem_singleton] at ht
    cases raw <;> exact Or.inl (ht ▸ rfl)
  | element e =>
    rw [nodeTokens, mem_cons] at ht
    rcases ht with rfl | ht
    · exact Or.inl rfl
    · split at ht
      next => exact absurd ht not_mem_nil
      next =>
        rcases mem_append.1 ht with ht | ht
        · exact Or.inr ht
        · obtain rfl := mem_singleton.1 ht
          exact Or.inl rfl
  | comment | processingInstruction | doctype => exact absurd ht not_mem_nil

lemma id_serializeNodes {raw : Bool} (ht : t ∈ serializeNodes raw f) : t.id ∈ f.ids := by
  induction f generalizing raw with
  | nil => exact absurd ht not_mem_nil
  | node i v c r ihc ihr =>
    rw [Forest.mem_ids_node]
    rcases mem_append.1 ht with ht | ht
    · exact (id_nodeTokens ht).imp id fun h => Or.inl (ihc h)
    · exact Or.inr (Or.inr (ihr ht))

lemma id_serializeChildren (ht : t ∈ serializeChildren f) : t.id ∈ f.ids := by
  induction f with
  | nil => exact absurd ht not_mem_nil
  | node i v c r _ ihr =>
    rw [Forest.mem_ids_node]
    rcases mem_append.1 ht with ht | ht
    · split at ht
      next => exact Or.inr (Or.inl (id_serializeNodes ht))
      next => exact (id_nodeTokens ht).imp id fun h => Or.inl (id_serializeNodes h)
    · exact Or.inr (Or.inr (ihr ht))

lemma removedIds_subset (f : Forest HtmlNode) : policy.removedIds f ⊆ f.ids := by
  induction f with
  | nil => exact Subset.refl _
  | node i v c r ihc ihr =>
    intro x hx
    rw [Forest.mem_ids_node]
    rcases mem_append.1 hx with hx | hx
    · split at hx
      next => exact (mem_cons.1 hx).imp id Or.inl
      next => exact Or.inr (Or.inl (ihc hx))
    · exact Or.inr (Or.inr (ihr hx))

lemma notMem_removedIds (hf : f.ids.Nodup) {inStyle : Bool} {x : Nat}
    (hx : x ∈ (policy.rewrite inStyle f).ids) : x ∉ policy.removedIds f := by
  induction f generalizing inStyle with
  | nil => exact not_mem_nil
  | node i v c r ihc ihr =>
    obtain ⟨⟨hic, hir⟩, hc, hr, hdis⟩ := Forest.nodup_ids_node.1 hf
    have hthere {s : Bool} (h : x ∈ (policy.rewrite s c).ids) : x ∉ policy.removedIds r :=
      fun hrem => hdis ((policy.ids_rewrite_sublist s c).subset h) (removedIds_subset r hrem)
    have hhere {s : Bool} (h : x ∈ (policy.rewrite s r).ids) : x ∉ c.ids :=
      fun hmem => hdis hmem ((policy.ids_rewrite_sublist s r).subset h)
    rw [removedIds, mem_append, not_or]
    rw [rewrite] at hx
    cases hd : policy.disposition v <;> rw [hd] at hx <;>
      simp only [reduceCtorEq, if_true, if_false]
    case drop =>
      refine ⟨?_, ihr hr hx⟩
      rw [mem_cons, not_or]
      exact ⟨fun h => hir (h ▸ (policy.ids_rewrite_sublist _ r).subset hx), hhere hx⟩
    case keep =>
      rcases Forest.mem_ids_node.1 hx with rfl | hx | hx
      · exact ⟨fun h => hic (removedIds_subset c h), fun h => hir (removedIds_subset r h)⟩
      · exact ⟨ihc hc hx, hthere hx⟩
      · exact ⟨fun h => hhere hx (removedIds_subset c h), ihr hr hx⟩
    case unwrap =>
      rw [Forest.ids_append] at hx
      rcases mem_append.1 hx with hx | hx
      · exact ⟨ihc hc hx, hthere hx⟩
      · exact ⟨fun h => hhere hx (removedIds_subset c h), ihr hr hx⟩

/-! ## The result -/

lemma decide_of_writtenHere {v : HtmlNode} {inner : List Element}
    (hd : policy.disposition v = .keep)
    (hinner : e ∈ inner → (policy.decide e).1 = .keep) (he : e ∈ writtenHere v inner) :
    (policy.decide e).1 = .keep := by
  cases v with
  | element e' =>
    rcases mem_cons.1 he with rfl | he
    · exact hd
    · split at he
      next => exact absurd he not_mem_nil
      next => exact hinner he
  | _ => exact absurd he not_mem_nil

lemma decide_of_written (he : e ∈ policy.written f) : (policy.decide e).1 = .keep := by
  induction f with
  | nil => exact absurd he not_mem_nil
  | node i v c r ihc ihr =>
    rcases mem_append.1 he with he | he
    · cases hd : policy.disposition v <;> rw [hd] at he
      case keep => exact decide_of_writtenHere hd ihc he
      case drop => exact absurd he not_mem_nil
      case unwrap => exact ihc he
    · exact ihr he

lemma decide_of_writtenTop (he : e ∈ policy.writtenTop f) : (policy.decide e).1 = .keep := by
  induction f with
  | nil => exact absurd he not_mem_nil
  | node i v c r ihc ihr =>
    rcases mem_append.1 he with he | he
    · cases hd : policy.disposition v <;> rw [hd] at he
      case keep =>
        dsimp only at he
        split at he
        next => exact decide_of_written he
        next => exact decide_of_writtenHere hd decide_of_written he
      case drop => exact absurd he not_mem_nil
      case unwrap => exact ihc he
    · exact ihr he

/-- A kept element: the policy's action keeps its name, and what is written of its attributes is
clean exactly when they are in order or all go. -/
lemma rewritten_clean (he : (policy.decide e).1 = .keep) :
    policy.Keeps e.tag ∧ (policy.CleanAttrs e.tag (policy.rewritten e).attrs ↔
      (policy.action e.tag = .validate → policy.Orderly e.tag e.attrs)) := by
  cases haction : policy.action e.tag with
  | remove | filter | encode => exact absurd he (by simp [Policy.decide, haction])
  | truncate =>
    have hnil : (policy.rewritten e).attrs = [] := by
      have hedits : (policy.decide e).2 = e.attrs.map fun a => (a.1.localName, none) := by
        simp [Policy.decide, haction]
      rw [rewritten, Element.edit, hedits]
      exact applyEdits_removeAll e.distinct
    refine ⟨Or.inr haction, fun _ h => absurd h (by simp), fun _ => ?_⟩
    rw [hnil]
    exact fun a ha => absurd ha not_mem_nil
  | validate =>
    cases hedits : policy.attributeEdits e.tag e.attrs with
    | error d =>
      have hd : d = .keep := by simpa [Policy.decide, haction, hedits] using he
      exact absurd (hd ▸ hedits) attributeEdits_ne_keep
    | ok edits =>
      have hdecide : (policy.decide e).2 = edits := by simp [Policy.decide, haction, hedits]
      refine ⟨Or.inl haction, ?_⟩
      rw [rewritten, Element.edit, hdecide]
      exact (cleanAttrs_applyEdits_iff e.distinct hedits).trans ⟨fun h _ => h, fun h => h rfl⟩

lemma mem_startTags {out : List Token} : e ∈ startTags out ↔ ∃ i, .startTag i e ∈ out := by
  rw [startTags, mem_filterMap]
  constructor
  · rintro ⟨t, ht, h⟩
    cases t with
    | startTag i e' => exact ⟨i, Option.some.inj h ▸ ht⟩
    | text i s | rawText i s | endTag i s => exact absurd h (by simp)
  · exact fun ⟨i, h⟩ => ⟨_, h, rfl⟩

lemma mem_rawTexts {out : List Token} {s : List Char} : s ∈ rawTexts out ↔
    ∃ i, .rawText i s ∈ out := by
  rw [rawTexts, mem_filterMap]
  constructor
  · rintro ⟨t, ht, h⟩
    cases t with
    | rawText i s' => exact ⟨i, Option.some.inj h ▸ ht⟩
    | text i s' | startTag i s' | endTag i s' => exact absurd h (by simp)
  · exact fun ⟨i, h⟩ => ⟨_, h, rfl⟩

/-- **The output is clean under the policy exactly when the document is unambiguous to it.** -/
theorem policyClean_iff (policy : Policy) (tree : HtmlTree) :
    policy.PolicyClean tree (sanitizeTokens policy tree) ↔ policy.Unambiguous tree := by
  have hout :
      sanitizeTokens policy tree = serializeChildren (policy.rewrite false tree.forest) := by
    rw [sanitizeTokens, sanitizeTree_eq_rewrite tree.distinct]
  have htags : ∀ e, (∃ i, .startTag i e ∈ sanitizeTokens policy tree) ↔
      ∃ e' ∈ policy.writtenTop tree.forest, policy.rewritten e' = e := by
    intro e
    rw [← mem_startTags, hout, startTags_serializeChildren, List.mem_map]
  have hraw : (∀ s ∈ rawTexts (sanitizeTokens policy tree), OpensNothing s) ↔
      ∀ s ∈ policy.looseTexts false false tree.forest, OpensNothing s := by
    rw [hout, rawTexts_serializeChildren, rawTexts_serializeNodes]
  constructor
  · intro hclean
    refine ⟨fun e he => ?_, hraw.1 fun s hs => ?_⟩
    · obtain ⟨i, hi⟩ := (htags (policy.rewritten e)).2 ⟨e, he, rfl⟩
      exact (rewritten_clean (decide_of_writtenTop he)).2.1 (hclean.attrs i _ hi)
    · obtain ⟨i, hi⟩ := mem_rawTexts.1 hs
      exact hclean.raw i s hi
  · rintro ⟨horderly, hloose⟩
    refine ⟨fun i e he => ?_, fun i e he => ?_, fun i s hs => ?_, fun t ht => ?_⟩
    · obtain ⟨e', he', rfl⟩ := (htags e).1 ⟨i, he⟩
      exact (rewritten_clean (decide_of_writtenTop he')).1
    · obtain ⟨e', he', rfl⟩ := (htags e).1 ⟨i, he⟩
      exact (rewritten_clean (decide_of_writtenTop he')).2.2 (horderly e' he')
    · exact hraw.2 hloose s (mem_rawTexts.2 ⟨i, hs⟩)
    · rw [hout] at ht
      exact notMem_removedIds tree.distinct (id_serializeChildren ht)

end Policy

def linkRule : AttributeRule := ⟨.removeAttribute, [], ["https://ok.example"], true⟩

def linkPolicy : Policy where
  directives _ := none
  commonAttributes _ := none
  globalAttributes _ := false
  tags tag :=
    if tag = ['a'] then
      some ⟨.validate, fun name => if name = ['h', 'r', 'e', 'f'] then
        some (some linkRule) else none⟩
    else none
  filterDeclarations _ := ""

def xlinkHref : QualName := ⟨some "xlink", "xlink", "href"⟩

def plainHref : QualName := ⟨none, "", "href"⟩

def drawnLink : Element :=
  ⟨"a", [(xlinkHref, "https://ok.example"), (plainHref, "javascript:alert(1)")], by decide⟩

/-- `<svg><a xlink:href="https://ok.example" href="javascript:alert(1)">x</a></svg>`. -/
def drawing : HtmlTree where
  forest := .node 0 (.element ⟨"html", [], by decide⟩)
    (.node 1 (.element ⟨"svg", [], by decide⟩)
      (.node 2 (.element drawnLink) (.node 3 (.text ['x']) .nil .nil) .nil) .nil) .nil
  distinct := by decide

/-- The second address is refused, and the first is removed. -/
theorem drawing_not_clean :
    ¬linkPolicy.PolicyClean drawing (sanitizeTokens linkPolicy drawing) := by
  intro hclean
  have htag : Token.startTag 2 ⟨"a", [(plainHref, "javascript:alert(1)")], by decide⟩
      ∈ sanitizeTokens linkPolicy drawing := by
    have hout : sanitizeTokens linkPolicy drawing
        = [.startTag 2 ⟨"a", [(plainHref, "javascript:alert(1)")], by decide⟩, .text 3 ['x'],
            .endTag 2 "a"] := rfl
    rw [hout]
    exact mem_cons_self
  obtain ⟨hacc, -⟩ := hclean.attrs 2 _ htag _ mem_cons_self
  rcases hacc with ⟨hname, -⟩ | ⟨rule, hrule, haccepts⟩
  · exact absurd hname (by decide)
  · have hlink : linkPolicy.attributeRule ['a'] ['h', 'r', 'e', 'f'] = some linkRule := rfl
    obtain rfl := Option.some.inj (hlink.symm.trans hrule)
    exact absurd haccepts (by decide)

end RustCfml.Sanitize
