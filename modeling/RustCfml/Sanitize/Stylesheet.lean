import RustCfml.Sanitize.Policy

/-!
# The text of a `style` element

What stands in a `style` element is a stylesheet and is written as it is, without escaping. **The
last line of defence is a look at the result**: with a `<` in it the whole stylesheet is refused, so
a filtered stylesheet begins no markup (`filterStylesheet_opens_nothing`), whatever the selectors
and the policy's CSS rules let through.
-/

namespace RustCfml.Sanitize

open List

def splitOnce (pat : List Char) : List Char → Option (List Char × List Char)
  | [] => if pat = [] then some ([], []) else none
  | c :: cs =>
    if pat.isPrefixOf (c :: cs) then some ([], (c :: cs).drop pat.length)
    else (splitOnce pat cs).map fun p => (c :: p.1, p.2)

variable {pat s before after : List Char}

lemma eq_of_splitOnce (h : splitOnce pat s = some (before, after)) :
    s = before ++ (pat ++ after) ∧ ∀ x, pat ++ x <:+ s → pat ++ x <:+ pat ++ after := by
  induction s generalizing before with
  | nil =>
    rw [splitOnce] at h
    split at h
    next hpat => simp_all
    next => simp at h
  | cons c cs ih =>
    rw [splitOnce] at h
    split at h
    next hpat =>
      obtain ⟨w, hw⟩ := isPrefixOf_iff_prefix.1 hpat
      obtain ⟨rfl, rfl⟩ := Prod.mk.inj (Option.some.inj h)
      simp [← hw]
    next hpat =>
      obtain ⟨p, hp, he⟩ := Option.map_eq_some_iff.1 h
      obtain ⟨rfl, rfl⟩ := Prod.mk.inj he
      obtain ⟨heq, hfirst⟩ := ih hp
      refine ⟨by simp [← heq], fun x hx => ?_⟩
      rcases suffix_cons_iff.1 hx with hx | hx
      · exact hpat.elim <| isPrefixOf_iff_prefix.2 ⟨x, hx⟩
      · exact hfirst x hx

lemma not_infix_of_splitOnce (h : splitOnce pat s = none) : ¬ pat <:+: s := by
  induction s with
  | nil =>
    rw [splitOnce] at h
    split at h <;> simp_all
  | cons c cs ih =>
    rw [splitOnce] at h
    split at h
    next => simp at h
    next hpat =>
      rw [infix_cons_iff, not_or]
      exact ⟨fun hp => hpat <| isPrefixOf_iff_prefix.2 hp, ih (Option.map_eq_none_iff.1 h)⟩

lemma length_of_splitOnce (h : splitOnce pat s = some (before, after)) :
    after.length + pat.length ≤ s.length := by
  rw [(eq_of_splitOnce h).1, length_append, length_append]
  omega

def contains (pat s : List Char) : Bool := (splitOnce pat s).isSome

def stripComments (css : List Char) : List Char :=
  match _h : splitOnce "/*".toList css with
  | none => css
  | some (before, after) =>
    match _h' : splitOnce "*/".toList after with
    | some (_, rest) => before ++ stripComments rest
    | none => before
  termination_by css.length
  decreasing_by
    have h1 := length_of_splitOnce _h
    have h2 := length_of_splitOnce _h'
    have : "/*".toList.length = 2 := rfl
    omega

def selectorIsSafe (selector : List Char) : Bool :=
  let lowered := selector.map Char.toLower
  ["<", ">", "@", "expression(", "javascript:", "url("].all fun pat =>
    !contains pat.toList lowered

def openBrace : Char := '\x7b'

def closeBrace : Char := '\x7d'

def filterRules (policy : Policy) (css : List Char) : List (List Char) :=
  match _h : splitOnce [openBrace] css with
  | none => []
  | some (before, after) =>
    match _h' : splitOnce [closeBrace] after with
    | none => []
    | some (body, rest) =>
      let selector := trim before
      let declarations := (policy.filterDeclarations (String.ofList body)).toList
      if selector = [] ∨ selectorIsSafe selector = false ∨ declarations = [] then
        filterRules policy rest
      else
        (selector ++ [' ', openBrace, ' '] ++ declarations ++ [' ', closeBrace])
          :: filterRules policy rest
  termination_by css.length
  decreasing_by
    all_goals
      have h1 := length_of_splitOnce _h
      have h2 := length_of_splitOnce _h'
      have : [openBrace].length = 1 := rfl
      omega

def stylesheetBody (policy : Policy) (css : List Char) : List Char :=
  let out := filterRules policy (stripComments css)
  if out = [] then "/* */".toList else List.intercalate ['\n'] out

def filterStylesheet (policy : Policy) (css : List Char) : List Char :=
  if '<' ∈ stylesheetBody policy css then "<![CDATA[/* */]]>".toList
  else "<![CDATA[".toList ++ stylesheetBody policy css ++ "]]>".toList

/-- What a CDATA section holds; any other text is itself. -/
def cdataContent (s : List Char) : List Char :=
  if "<![CDATA[".toList.isPrefixOf s && "]]>".toList.isSuffixOf s then
    (s.drop 9).take (s.length - 12)
  else s

/-- Text written as it is begins no tag, comment or other markup. Inside `svg` the content of a
`style` element is read as markup like any other, so more than the end tag is ruled out. -/
def OpensNothing (s : List Char) : Prop := '<' ∉ cdataContent s

instance (s : List Char) : Decidable (OpensNothing s) := by
  unfold OpensNothing
  infer_instance

lemma cdataContent_wrapped (body : List Char) :
    cdataContent ("<![CDATA[".toList ++ body ++ "]]>".toList) = body := by
  have hpre : "<![CDATA[".toList.isPrefixOf ("<![CDATA[".toList ++ body ++ "]]>".toList) =
      true := by
    simp
  have hsuf : "]]>".toList.isSuffixOf ("<![CDATA[".toList ++ body ++ "]]>".toList) = true :=
    isSuffixOf_iff_suffix.2 (suffix_append _ _)
  have hdrop : ("<![CDATA[".toList ++ body ++ "]]>".toList).drop 9 = body ++ "]]>".toList := by
    simp
  have hlen : ("<![CDATA[".toList ++ body ++ "]]>".toList).length - 12 = body.length := by
    simp
  rw [cdataContent, hpre, hsuf, hdrop, hlen]
  simp

/-- **A filtered stylesheet begins no markup.** -/
theorem filterStylesheet_opens_nothing (policy : Policy) (css : List Char) :
    OpensNothing (filterStylesheet policy css) := by
  rw [filterStylesheet]
  split
  next =>
    have hfixed : "<![CDATA[/* */]]>".toList
        = "<![CDATA[".toList ++ "/* */".toList ++ "]]>".toList := by simp
    rw [hfixed, OpensNothing, cdataContent_wrapped]
    simp
  next hbody => rwa [OpensNothing, cdataContent_wrapped]

end RustCfml.Sanitize
