import RustCfml.Sanitize.Output

/-!
# The early return

A text without `<`, `&` and `"` is returned as it is. **That is not always what the parser and the
serialiser make of it**: a `>` is escaped in text too, a byte order mark in front is discarded, and
a policy that removes `html` elements removes the one the parser puts around a fragment. The parser
is html5ever's and stays a parameter: `PlainFragment` is what is taken for granted of it. -/

namespace RustCfml.Sanitize

open List

/-- The tokenizer discards a byte order mark at the start. -/
def discardBom : List Char → List Char
  | [] => []
  | c :: cs => if c = '\uFEFF' then cs else c :: cs

def htmlRoot : Element := ⟨"html", [], nodup_nil⟩

def textNodes (id : Nat) : List Char → Arena.Forest HtmlNode
  | [] => .nil
  | text => .node id (.text text) .nil .nil

def Plain (html : String) : Prop := ∀ c ∈ html.toList, c ∉ ['<', '&', '"', '\x00', '\r']

/-- What `parse_fragment` makes of a text without tags, references, NUL and carriage returns: the
tokenizer stays in its data state, and all characters go into one text under the fragment's root. -/
def PlainFragment (parseFragment : String → HtmlTree) : Prop :=
  ∀ html, Plain html → ∃ root id, (parseFragment html).forest =
    .node root (.element htmlRoot) (textNodes id (discardBom html.toList)) .nil

def slowPath (parseFragment : String → HtmlTree) (policy : Policy) (html : String) : List Char :=
  (sanitizeTokens policy (parseFragment html)).flatMap Token.render

variable {s : List Char} {c : Char} {text html : String} {parseFragment : String → HtmlTree}

lemma replaceChar_of_notMem (h : c ∉ s) : replaceChar c text s = s := by
  induction s with
  | nil => rfl
  | cons d s ih =>
    rw [mem_cons, not_or] at h
    rw [replaceChar, flatMap_cons, if_neg (Ne.symm h.1)]
    exact congrArg (d :: ·) (ih h.2)

lemma length_replaceGt (s : List Char) :
    (replaceChar '>' "&gt;" s).length = s.length + 3 * s.count '>' := by
  induction s with
  | nil => rfl
  | cons d s ih =>
    have hcons : replaceChar '>' "&gt;" (d :: s) =
        (if d = '>' then "&gt;".toList else [d]) ++ replaceChar '>' "&gt;" s := flatMap_cons
    rw [hcons, length_append, ih, length_cons, count_cons]
    by_cases hd : d = '>' <;> simp [hd] <;> omega

lemma disposition_htmlRoot (policy : Policy) :
    policy.disposition (.element htmlRoot) = .drop ↔ policy.action htmlRoot.tag = .remove := by
  rw [Policy.disposition, Policy.decide]
  cases policy.action htmlRoot.tag <;> simp [htmlRoot, Policy.attributeEdits]

lemma render_textNodes (id : Nat) (s : List Char) :
    (serializeNodes false (textNodes id s)).flatMap Token.render = escapeText s ∧
      (serializeChildren (textNodes id s)).flatMap Token.render = escapeText s := by
  cases s with
  | nil => exact ⟨rfl, rfl⟩
  | cons c s => exact ⟨append_nil _, append_nil _⟩

lemma slowPath_eq (hparse : PlainFragment parseFragment) (policy : Policy) (h : Plain html) :
    slowPath parseFragment policy html = if policy.action htmlRoot.tag = .remove then [] else
    escapeText (discardBom html.toList) := by
  have hstyle : policy.keptStyle (.element htmlRoot) = false := by
    have htag : (htmlRoot.tag == "style".toList) = false := by decide
    rw [Policy.keptStyle, htag, Bool.and_false]
  obtain ⟨root, id, hforest⟩ := hparse html h
  have htext (s : List Char) :
    policy.rewrite false (textNodes id s) = textNodes id s := by cases s <;> rfl
  obtain ⟨hkeep, hunwrap⟩ := render_textNodes id (discardBom html.toList)
  rw [slowPath, sanitizeTokens, Policy.sanitizeTree_eq_rewrite (parseFragment html).distinct,
    hforest, Policy.rewrite]
  cases hd : policy.disposition (.element htmlRoot) with
  | keep =>
    rw [if_neg (fun h => by rw [(disposition_htmlRoot policy).2 h] at hd; cases hd)]
    rw [serializeChildren, Policy.isHtml_rewriteNode, hstyle, htext]
    exact (flatMap_append).trans ((congrArg (· ++ _) hkeep).trans (append_nil _))
  | drop =>
    rw [if_pos ((disposition_htmlRoot policy).1 hd)]
    rfl
  | unwrap =>
    rw [if_neg (fun h => by rw [(disposition_htmlRoot policy).2 h] at hd; cases hd)]
    rw [hstyle, htext]
    show (serializeChildren (textNodes id (discardBom html.toList) ++ Arena.Forest.nil)).flatMap _ =
      _
    rw [Arena.Forest.append_nil]
    exact hunwrap

lemma mem_replaceChar {d : Char} (h : d ∈ replaceChar c text s) : d ∈ text.toList ∨ d ∈ s := by
  obtain ⟨e, he, hd⟩ := mem_flatMap.1 h
  split at hd
  · exact .inl hd
  · exact .inr (mem_singleton.1 hd ▸ he)

lemma escapeText_of_plain (hs : ∀ c ∈ s, c ∉ ['<', '&', '"', '\x00', '\r']) :
    escapeText s = replaceChar '>' "&gt;" s := by
  have hnot (c : Char) (hc : c ∈ ['<', '&', '"', '\x00', '\r']) : c ∉ s := fun h => hs c h hc
  rw [escapeText, replaceChar_of_notMem (hnot '&' (by decide)),
    replaceChar_of_notMem (hnot '<' (by decide))]
  refine replaceChar_of_notMem fun h => ?_
  rcases mem_replaceChar h with h | h
  · exact absurd h (by decide)
  · exact hnot '"' (by decide) h

lemma escapeText_discardBom (h : Plain html) : escapeText (discardBom html.toList) = html.toList ↔
      '>' ∉ html.toList ∧ html.toList.head? ≠ some '\uFEFF' := by
  rw [Plain] at h
  generalize html.toList = s at h ⊢
  cases s with
  | nil =>
    have hempty : escapeText [] = [] := rfl
    simp [discardBom, hempty]
  | cons c cs =>
    rw [discardBom]
    by_cases hc : c = '\uFEFF'
    · rw [if_pos hc, escapeText_of_plain fun d hd => h d (mem_cons_of_mem _ hd)]
      refine ⟨fun heq => ?_, fun hno => absurd (congrArg some hc) hno.2⟩
      -- three characters more for each `>`, and one less for the mark
      have hlen := congrArg List.length heq
      rw [length_replaceGt, length_cons] at hlen
      omega
    · rw [if_neg hc, escapeText_of_plain h]
      refine ⟨fun heq => ⟨?_, fun hhead => hc (Option.some.inj hhead)⟩,
        fun hno => replaceChar_of_notMem hno.1⟩
      have hlen := congrArg List.length heq
      rw [length_replaceGt] at hlen
      exact count_eq_zero.1 (by omega)

/-- **The early return is right exactly** for the empty text, and for a text without `>` and without
a byte order mark in front under a policy that does not remove `html` elements. -/
theorem fastPath_iff {parseFragment : String → HtmlTree} (hparse : PlainFragment parseFragment)
    (policy : Policy)
    {html : String} (h : Plain html) :
    sanitize parseFragment policy html = .ok (slowPath parseFragment policy html) ↔
      html = "" ∨ policy.action htmlRoot.tag ≠ .remove ∧ '>' ∉ html.toList ∧
      html.toList.head? ≠ some '\uFEFF' := by
  have hfast : sanitize parseFragment policy html = .ok html.toList := by
    rw [sanitize]
    refine if_pos ?_
    rw [all_eq_true]
    intro c hc
    have := h c hc
    simp only [mem_cons, not_or] at this
    simp [this]
  rw [hfast, slowPath_eq hparse policy h]
  by_cases hr : policy.action htmlRoot.tag = .remove
  · rw [if_pos hr, Except.ok.injEq, String.toList_eq_nil_iff]
    exact ⟨.inl, fun h => h.elim id fun h => absurd hr h.1⟩
  · rw [if_neg hr, Except.ok.injEq, eq_comm, escapeText_discardBom h]
    refine ⟨fun h => .inr ⟨hr, h⟩, fun h => h.elim ?_ And.right⟩
    rintro rfl
    simp

/-- A parser for plain texts. -/
def parsePlain (html : String) : HtmlTree where
  forest := .node 0 (.element htmlRoot) (textNodes 1 (discardBom html.toList)) .nil
  distinct := by cases discardBom html.toList <;> simp [textNodes, Arena.Forest.ids]

lemma plainFragment_parsePlain : PlainFragment parsePlain := fun _ _ => ⟨0, 1, rfl⟩

/-- **A `>` comes back as it is, and the slow path escapes it.** -/
theorem greater_returned : Plain "1 > 0" ∧ sanitize parsePlain linkPolicy "1 > 0" =
    .ok "1 > 0".toList ∧
      slowPath parsePlain linkPolicy "1 > 0" = "1 &gt; 0".toList := by
  have hplain : Plain "1 > 0" := by
    intro c hc
    fin_cases hc <;> decide
  refine ⟨hplain, rfl, ?_⟩
  rw [slowPath_eq plainFragment_parsePlain linkPolicy hplain, if_neg (by decide)]
  decide

theorem fastPath_iff_word : Plain "word" ∧
    sanitize parsePlain linkPolicy "word" = .ok (slowPath parsePlain linkPolicy "word") := by
  have hplain : Plain "word" := by
    intro c hc
    fin_cases hc <;> decide
  exact ⟨hplain,
    (fastPath_iff plainFragment_parsePlain linkPolicy hplain).2
      (.inr ⟨by decide, by decide, by decide⟩)⟩

end RustCfml.Sanitize
