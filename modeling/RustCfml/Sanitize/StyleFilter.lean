import RustCfml.Sanitize.Stylesheet

/-!
# The declarations of a style

A declaration is looked at as it is written. **Whoever reads the style decodes its escapes first**,
and skips the control characters in a reference.
-/

namespace RustCfml.Sanitize

open List

def isQuote (c : Char) : Bool := c == '\'' || c == '"'

def quoteAfter (quote : Option Char) (c : Char) : Option Char :=
  if isQuote c then if quote = some c then none else quote.or (some c) else quote

def depthAt (quote : Option Char) (depth : Nat) (c : Char) : Nat :=
  if quote ≠ none then depth
  else if c = '(' then depth + 1
  else if c = ')' then depth - 1
  else depth

def finishDeclaration (current : List Char) : List (List Char) := [trim current].filter (· ≠ [])

def splitFrom (current : List Char) (depth : Nat) (quote : Option Char) : List Char →
    List (List Char)
  | [] => finishDeclaration current
  | c :: cs =>
    if c = ';' ∧ quote = none ∧ depth = 0 then
      finishDeclaration current ++ splitFrom [] depth quote cs
    else splitFrom (current ++ [c]) (depthAt quote depth c) (quoteAfter quote c) cs

def splitDeclarations (style : List Char) : List (List Char) := splitFrom [] 0 none style

def trimMatches (p : Char → Bool) (cs : List Char) : List Char :=
  ((cs.dropWhile p).reverse.dropWhile p).reverse

def schemeLike (scheme : List Char) : Bool :=
  scheme != [] && scheme.all fun c => c.isAlphanum || c == '+' || c == '-' || c == '.'

def targetIsSafe (target : List Char) : Bool :=
  match splitOnce [':'] (trimMatches isQuote (trim target)) with
  | none => true
  | some (scheme, _) =>
    !schemeLike (trim scheme) || trim scheme == "http".toList || trim scheme == "https".toList

def urlOpen : List Char := ['u', 'r', 'l', '(']

def urlsAreSafe (lowered : List Char) : Bool :=
  match _h : splitOnce urlOpen lowered with
  | none => true
  | some (_, after) =>
    match _h' : splitOnce [')'] after with
    | none => false
    | some (target, rest) => targetIsSafe target && urlsAreSafe rest
  termination_by lowered.length
  decreasing_by
    have h1 := length_of_splitOnce _h
    have h2 := length_of_splitOnce _h'
    have : urlOpen.length = 4 := rfl
    omega

def urlTokensAreSafe (value : List Char) : Bool :=
  let lowered := value.map Char.toLower
  !contains "@import".toList lowered && !contains "expression(".toList lowered &&
    urlsAreSafe lowered

variable (accepts : List Char → List Char → Bool)

def keepDeclaration (declaration : List Char) : Option (List Char × List Char) := do
  let (before, after) ← splitOnce [':'] declaration
  let property := (trim before).map Char.toLower
  let value := trim after
  guard (property ≠ [] ∧ value ≠ [] ∧ contains "/*".toList property = false ∧
    contains "/*".toList value = false ∧ contains "*/".toList value = false ∧
    urlTokensAreSafe value ∧ accepts property value)
  return (property, value)

def keptDeclarations (style : List Char) : List (List Char × List Char) :=
  (splitDeclarations style).filterMap (keepDeclaration accepts)

def filterDeclarations (style : List Char) : List Char :=
  List.intercalate [' ']
    ((keptDeclarations accepts style).map fun d => d.1 ++ ": ".toList ++ d.2 ++ [';'])

/-! ## What is read -/

def hexDigit? (c : Char) : Option Nat :=
  if c.isDigit then some (c.toNat - 48)
  else if 'a' ≤ c.toLower ∧ c.toLower ≤ 'f' then some (c.toLower.toNat - 87) else none

/-- A text behind the backslash and the digits of an escape that is being read. -/
def decodeAfter : Option (Nat × Nat) → List Char → List Char
  | none, [] => []
  | some (n, digits), [] => if digits = 0 then [] else [.ofNat n]
  | none, c :: cs => if c = '\\' then decodeAfter (some (0, 0)) cs else c :: decodeAfter none cs
  | some (n, digits), c :: cs =>
    match hexDigit? c with
    | some d =>
      if digits < 6 then decodeAfter (some (16 * n + d, digits + 1)) cs
      else .ofNat n :: c :: decodeAfter none cs
    | none =>
      if digits = 0 then c :: decodeAfter none cs
      else .ofNat n :: if isWhitespace c then decodeAfter none cs
        else if c = '\\' then decodeAfter (some (0, 0)) cs else c :: decodeAfter none cs

def readStyle (text : List Char) : List Char := (decodeAfter none text).map Char.toLower

def referenceOf (after : List Char) : List Char := after.takeWhile (· != ')')

def isControl (c : Char) : Bool := c.toNat < 0x20

def afterQuote : List Char → List Char
  | c :: s => if isQuote c then s.dropWhile (· == ' ') else c :: s
  | [] => []

/-- What a URL parser reads of a reference: without the quote and the spaces in front, and without
control characters. -/
def urlText (reference : List Char) : List Char :=
  afterQuote ((reference.filter (!isControl ·)).dropWhile (· == ' '))

def schemeChar (c : Char) : Bool := c.isAlphanum || c == '+' || c == '-' || c == '.'

def HasScheme (url scheme : List Char) : Prop :=
  scheme ≠ [] ∧ (∀ c ∈ scheme, schemeChar c = true) ∧ ∃ rest, url = scheme ++ ':' :: rest

structure SafeStyle (read : List Char) : Prop where
  imports : ¬ "@import".toList <:+: read
  expressions : ¬ "expression(".toList <:+: read
  urls : ∀ after, urlOpen ++ after <:+ read →
    ∀ scheme, HasScheme (urlText (referenceOf after)) scheme →
    scheme = "http".toList ∨ scheme = "https".toList

/-- A value without escapes, and with neither control characters nor a `url(` between a `url(` and
the next `)`. -/
structure PlainValue (value : List Char) : Prop where
  escapes : '\\' ∉ value
  urls : ∀ after, urlOpen ++ after <:+ value.map Char.toLower →
    (∀ c ∈ referenceOf after, isControl c = false) ∧ ¬ urlOpen <:+: referenceOf after

lemma decodeAfter_of_plain {s : List Char} (h : '\\' ∉ s) : decodeAfter none s = s := by
  induction s with
  | nil => rfl
  | cons c cs ih =>
    simp only [mem_cons, not_or] at h
    rw [decodeAfter, if_neg (Ne.symm h.1), ih h.2]

section

variable {pat s x z t before after : List Char} {d : Char}

lemma notMem_of_splitOnce (h : splitOnce [d] s = some (before, after)) : d ∉ before := by
  intro hmem
  obtain ⟨x, y, rfl⟩ := append_of_mem hmem
  obtain ⟨hs, hfirst⟩ := eq_of_splitOnce h
  have := (hfirst (y ++ d :: after) ⟨x, by simp [hs]⟩).length_le
  simp only [cons_append, nil_append, length_cons, length_append] at this
  omega

lemma suffix_behind (hpat : d ∉ pat) (hne : pat ≠ []) (hno : ¬ pat <:+: t)
    (h : pat ++ x <:+ t ++ d :: z) : pat ++ x <:+ z := by
  induction t with
  | nil =>
    rcases suffix_cons_iff.1 h with h | h
    · cases pat <;> simp_all
    · exact h
  | cons c t ih =>
    rcases suffix_cons_iff.1 h with h | h
    · -- it would begin before the delimiter and go on behind it
      rcases append_eq_append_iff.1 (show pat ++ x = (c :: t) ++ d :: z from h) with
        ⟨a, ha, -⟩ | ⟨a, rfl, ha⟩
      · exact absurd ⟨[], a, by simp [ha]⟩ hno
      · cases a <;> simp_all
    · exact ih (fun hin => hno (infix_cons hin)) h

lemma splitOnce_append (h : d ∉ before) :
    splitOnce [d] (before ++ d :: after) = some (before, after) := by
  induction before with
  | nil => simp [splitOnce]
  | cons c cs ih =>
    obtain ⟨hc, hcs⟩ := not_or.1 (mt mem_cons.2 h)
    rw [cons_append, splitOnce, if_neg (by simp [isPrefixOf, hc]), ih hcs]
    rfl

/-! ## The scheme of a reference -/

variable {p : Char → Bool} {front body : List Char}

lemma dropWhile_stop (hd : p d = false) (x : List Char) (z : List Char) :
    ∃ x', (x ++ d :: z).dropWhile p = x' ++ d :: z := by
  induction x with
  | nil => exact ⟨[], by simp [hd]⟩
  | cons c x ih =>
    rw [cons_append, dropWhile_cons]
    split
    · exact ih
    · exact ⟨c :: x, rfl⟩

lemma dropWhile_front (hfront : ∀ c ∈ front, p c = true) (hbody : ∀ c ∈ body.head?, p c = false) :
    (front ++ body).dropWhile p = body := by
  rw [dropWhile_append_of_pos hfront]
  cases body with
  | nil => rfl
  | cons c body => rw [dropWhile_cons_of_neg (by simp [hbody c rfl])]

/-- Trimming takes off the front and stops, from behind, at a delimiter. -/
lemma trimMatches_stop (hfront : ∀ c ∈ front, p c = true)
    (hbody : ∀ c ∈ (body ++ [d]).head?, p c = false)
    (hd : p d = false) (z : List Char) : ∃ z', trimMatches p (front ++ (body ++ d :: z)) = body ++
    d :: z' := by
  have hhead : ∀ c ∈ (body ++ d :: z).head?, p c = false := by
    intro c hc
    refine hbody c ?_
    cases body <;> simpa using hc
  obtain ⟨z', hz'⟩ := dropWhile_stop hd z.reverse body.reverse
  refine ⟨z'.reverse, ?_⟩
  rw [trimMatches, dropWhile_front hfront hhead]
  simp [hz']

lemma trimMatches_all (hfront : ∀ c ∈ front, p c = true) (hbody : ∀ c ∈ body, p c = false) :
    trimMatches p (front ++ body) = body := by
  rw [trimMatches, dropWhile_front hfront fun c hc => hbody c (mem_of_mem_head? hc)]
  have hback : ([] ++ body.reverse).dropWhile p = body.reverse :=
    dropWhile_front (by simp) fun c hc => hbody c (mem_reverse.1 (mem_of_mem_head? hc))
  rw [nil_append] at hback
  rw [hback, reverse_reverse]

lemma schemeChar_facts {c : Char} (h : schemeChar c = true) :
    isWhitespace c = false ∧ isQuote c = false ∧ c ≠ ':' := by
  have hrange : (48 ≤ c.toNat ∧ c.toNat ≤ 57) ∨ (65 ≤ c.toNat ∧ c.toNat ≤ 90) ∨
    (97 ≤ c.toNat ∧ c.toNat ≤ 122) ∨
      c = '+' ∨ c = '-' ∨ c = '.' := by
    simp only [schemeChar, Char.isAlphanum, Char.isAlpha, Char.isUpper, Char.isLower, Char.isDigit,
      Bool.or_eq_true, Bool.and_eq_true, decide_eq_true_eq, beq_iff_eq] at h
    simp only [ge_iff_le, UInt32.le_iff_toNat_le] at h
    simp only [Char.toNat]
    change (((((65 ≤ c.val.toNat ∧ c.val.toNat ≤ 90) ∨ (97 ≤ c.val.toNat ∧ c.val.toNat ≤ 122)) ∨
      (48 ≤ c.val.toNat ∧ c.val.toNat ≤ 57)) ∨ c = '+') ∨ c = '-') ∨ c = '.' at h
    tauto
  have hquote : isQuote c = true → c.toNat = 39 ∨ c.toNat = 34 := by
    intro hq
    simp only [isQuote, Bool.or_eq_true, beq_iff_eq] at hq
    rcases hq with rfl | rfl
    · exact .inl rfl
    · exact .inr rfl
  have hcolon : c = ':' → c.toNat = 58 := fun hc => hc ▸ rfl
  have hsign : c = '+' ∨ c = '-' ∨ c = '.' → 43 ≤ c.toNat ∧ c.toNat ≤ 46 := by
    rintro (rfl | rfl | rfl) <;> decide
  have hn : (43 ≤ c.toNat ∧ c.toNat ≤ 57) ∨ (65 ≤ c.toNat ∧ c.toNat ≤ 122) := by
    rcases hrange with h | h | h | h
    · omega
    · omega
    · omega
    · have := hsign h
      omega
  refine ⟨?_, ?_, fun hc => ?_⟩
  · simp only [isWhitespace, Bool.or_eq_false_iff, Bool.and_eq_false_iff, decide_eq_false_iff_not,
      beq_eq_false_iff_ne]
    omega
  · rw [Bool.eq_false_iff]
    intro hq
    have := hquote hq
    omega
  · have := hcolon hc
    omega

/-- The code's cut finds the scheme that a URL parser reads. -/
lemma scheme_of_targetIsSafe {target scheme : List Char} (hsafe : targetIsSafe target = true)
    (hvisible : ∀ c ∈ target, isControl c = false) (h : HasScheme (urlText target) scheme) :
    scheme = "http".toList ∨ scheme = "https".toList := by
  obtain ⟨hne, hchars, rest, hurl⟩ := h
  have hcolon : ':' ∉ scheme := fun hmem => (schemeChar_facts (hchars _ hmem)).2.2 rfl
  have hspace : ∀ n : Nat, ∀ c ∈ replicate n ' ', isWhitespace c = true := by
    intro n c hc
    rw [(mem_replicate.1 hc).2]
    decide
  -- the reference is spaces, perhaps a quote and spaces again, and then the URL
  obtain ⟨n, quote, m, htarget, hquote⟩ : ∃ n quote m,
      target = replicate n ' ' ++ ((quote ++ replicate m ' ' ++ scheme) ++ ':' :: rest) ∧
      (quote = [] ∧ m = 0 ∨ ∃ q, isQuote q = true ∧ quote = [q]) := by
    have hspaces : ∀ x : List Char, ∃ n, x = replicate n ' ' ++ x.dropWhile (· == ' ') := by
      intro x
      refine ⟨(x.takeWhile (· == ' ')).length, ?_⟩
      have hall : ∀ c ∈ x.takeWhile (· == ' '), c = ' ' :=
        fun c hc => by simpa using mem_takeWhile_imp hc
      rw [← eq_replicate_of_mem hall, takeWhile_append_dropWhile]
    rw [urlText, filter_eq_self.2 (by simpa using hvisible)] at hurl
    obtain ⟨n, hn⟩ := hspaces target
    generalize target.dropWhile (· == ' ') = inner at hn hurl
    cases inner with
    | nil => simp [afterQuote] at hurl
    | cons c inner =>
      rw [afterQuote] at hurl
      split at hurl
      · next hq =>
        obtain ⟨m, hm⟩ := hspaces inner
        rw [hurl] at hm
        exact ⟨n, [c], m, by rw [hn, hm]; simp, .inr ⟨c, hq, rfl⟩⟩
      · exact ⟨n, [], 0, by rw [hn, hurl]; simp, .inl ⟨rfl, rfl⟩⟩
  have hscheme : ∀ c ∈ (scheme ++ [':']).head?, schemeChar c = true := by
    intro c hc
    cases scheme with
    | nil => exact absurd rfl hne
    | cons d scheme =>
      obtain rfl := Option.some.inj hc
      exact hchars d mem_cons_self
  obtain ⟨z, hz⟩ : ∃ z, trim target = quote ++ (replicate m ' ' ++ scheme ++ ':' :: z) := by
    have hhead : ∀ c ∈ (quote ++ replicate m ' ' ++ scheme ++ [':']).head?,
        isWhitespace c = false := by
      intro c hc
      rcases hquote with ⟨rfl, rfl⟩ | ⟨q, hq, rfl⟩
      · exact (schemeChar_facts (hscheme c (by simpa using hc))).1
      · obtain rfl : q = c := by simpa using hc
        simp only [isQuote, Bool.or_eq_true, beq_iff_eq] at hq
        rcases hq with rfl | rfl <;> decide
    obtain ⟨z, hz⟩ := trimMatches_stop (hspace n) hhead (by decide) rest
    exact ⟨z, by rw [htarget]; exact hz.trans (by simp)⟩
  obtain ⟨y, hy⟩ : ∃ y,
      trimMatches isQuote (trim target) = (replicate m ' ' ++ scheme) ++ ':' :: y := by
    rw [hz]
    refine trimMatches_stop (fun c hc => ?_) (fun c hc => ?_) (by decide) z
    · rcases hquote with ⟨rfl, -⟩ | ⟨q, hq, rfl⟩
      · cases hc
      · exact mem_singleton.1 hc ▸ hq
    · cases m with
      | zero => exact (schemeChar_facts (hscheme c (by simpa using hc))).2.1
      | succ m =>
        obtain rfl : ' ' = c := by simpa [replicate_succ] using hc
        decide
  have htrim : trim (replicate m ' ' ++ scheme) = scheme :=
    trimMatches_all (hspace m) fun c hc => (schemeChar_facts (hchars c hc)).1
  have hlike : schemeLike scheme = true := by
    simp only [schemeLike, Bool.and_eq_true, bne_iff_ne, all_eq_true]
    exact ⟨hne, hchars⟩
  have hnocolon : ':' ∉ replicate m ' ' ++ scheme := by
    rw [mem_append, not_or]
    exact ⟨fun h => absurd (mem_replicate.1 h).2 (by decide), hcolon⟩
  rw [targetIsSafe, hy, splitOnce_append hnocolon] at hsafe
  simpa [htrim, hlike] using hsafe

/-- **The scan.** Of a `url(` that is not inside another one, the scan looks at the reference. -/
theorem safe_of_urlsAreSafe (hsafe : urlsAreSafe s = true)
    (hplain : ∀ after, urlOpen ++ after <:+ s →
      (∀ c ∈ referenceOf after, isControl c = false) ∧ ¬ urlOpen <:+: referenceOf after)
    (h : urlOpen ++ after <:+ s) {scheme : List Char}
    (hscheme : HasScheme (urlText (referenceOf after)) scheme) :
    scheme = "http".toList ∨ scheme = "https".toList := by
  fun_induction urlsAreSafe s with
  | case1 s hnone =>
    exact absurd ((prefix_append _ _).isInfix.trans h.isInfix) (not_infix_of_splitOnce hnone)
  | case2 => cases hsafe
  | case3 s before first hopen t rest hclose ih =>
    obtain ⟨hs, hfirst⟩ := eq_of_splitOnce hopen
    obtain ⟨ht, -⟩ := eq_of_splitOnce hclose
    obtain ⟨htarget, hrest⟩ := Bool.and_eq_true_iff.1 hsafe
    have href : referenceOf first = t := by
      rw [ht, referenceOf, takeWhile_append_of_pos fun c hc => ?_]
      · simp
      · simpa using ne_of_mem_of_not_mem hc (notMem_of_splitOnce hclose)
    obtain ⟨hvisible, hnest⟩ := hplain first ⟨before, hs.symm⟩
    rw [href] at hvisible hnest
    have hcases : after = first ∨ urlOpen ++ after <:+ first := by
      simpa [urlOpen, suffix_cons_iff] using hfirst _ h
    rcases hcases with rfl | hbehind
    · rw [href] at hscheme
      exact scheme_of_targetIsSafe htarget hvisible hscheme
    · rw [ht] at hbehind
      refine ih hrest (fun x hx => ?_) (suffix_behind (by decide) (by decide) hnest hbehind)
      exact hplain x (hx.trans ⟨before ++ (urlOpen ++ (t ++ [')'])), by simp [hs, ht]⟩)

end

/-! ## Declarations -/

variable {accepts}

lemma urlTokensAreSafe_of_keep {declaration : List Char} {d : List Char × List Char}
    (h : keepDeclaration accepts declaration = some d) : urlTokensAreSafe d.2 = true := by
  cases hsplit : splitOnce [':'] declaration with
  | none => simp [keepDeclaration, hsplit] at h
  | some p =>
    simp only [keepDeclaration, hsplit, Option.bind_eq_bind, Option.bind_some, guard] at h
    split at h
    next hguard =>
      obtain rfl := Option.some.inj h
      exact hguard.2.2.2.2.2.1
    next => cases h

lemma safe_of_kept {style : List Char} {d : List Char × List Char}
    (hd : d ∈ keptDeclarations accepts style)
    (hplain : PlainValue d.2) : SafeStyle (readStyle d.2) := by
  obtain ⟨declaration, -, hkeep⟩ := mem_filterMap.1 hd
  have hsafe := urlTokensAreSafe_of_keep hkeep
  simp only [urlTokensAreSafe, contains, Bool.and_eq_true, Bool.not_eq_true',
    Option.isSome_eq_false_iff, Option.isNone_iff_eq_none] at hsafe
  rw [readStyle, decodeAfter_of_plain hplain.escapes]
  exact ⟨not_infix_of_splitOnce hsafe.1.1, not_infix_of_splitOnce hsafe.1.2,
    fun after h scheme hscheme => safe_of_urlsAreSafe hsafe.2 hplain.urls h hscheme⟩

lemma mem_filterRules {policy : Policy} {css rule : List Char} (h : rule ∈ filterRules policy css) :
    ∃ selector body, rule = selector ++ [' ', openBrace, ' '] ++
      (policy.filterDeclarations (String.ofList body)).toList ++ [' ', closeBrace] := by
  fun_induction filterRules policy css with
  | case1 | case2 => cases h
  | case3 css before after hopen body rest hclose selector declarations hskip ih => exact ih h
  | case4 css before after hopen body rest hclose selector declarations hkeep ih =>
    rcases mem_cons.1 h with rfl | h
    · exact ⟨selector, body, rfl⟩
    · exact ih h

variable (accepts)

lemma urlsAreSafe_of_none {s : List Char} (h : splitOnce urlOpen s = none) :
    urlsAreSafe s = true := by
  rw [urlsAreSafe]
  split
  next => rfl
  next hsome => cases h.symm.trans hsome

/-- `url(javascript:x)`, its first letter escaped. -/
def escapedUrl : List Char := "\\75rl(javascript:x)".toList

end RustCfml.Sanitize
