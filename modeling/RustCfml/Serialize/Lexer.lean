import RustCfml.Lib.Scanner
import RustCfml.Serialize.Dates

/-!
# Lexing a literal

The lexer (`cfml-compiler/src/lexer.rs`) on the text of a literal expression. Its hard part is the
string: a doubled quote is a quote, `##` is a hash, a hash right before a quote is a hash, and **any
other hash opens an interpolation**, whose text runs to the matching hash.
-/

namespace RustCfml.Serialize

open List

/-! ## Interpolations -/

def canStartString (expr : Text) : Bool :=
  let trimmed := (expr.reverse.dropWhile isWhitespace)
  let isWord (c : Char) := c.isAlphanum || c == '_' || c == '$'
  match trimmed with
  | [] => true
  | previous :: _ =>
    if "([\x7b,:?=!<>+-*/%&|^".toList.contains previous then true
    else if isWord previous then
      let word := ((trimmed.takeWhile isWord).reverse.map Char.toLower)
      ["and", "or", "xor", "eq", "neq", "ne", "gt", "gte", "lt", "lte", "contains", "is", "mod",
        "eqv", "imp"].any (·.toList == word)
    else false

/-- What is open inside an interpolation: a nested string, or an interpolation in one, with its
bracket depth and the text it has so far. -/
inductive Frame where
  | string (quote : Char)
  | expr (depth : Int) (buf : Text)

structure ExprState where
  out : Text
  depth : Int
  stack : List Frame

inductive Interpolation where
  | closed (expr rest : Text)
  | unterminated (message : String) (rest : Text)

def bracketDepth (depth : Int) (c : Char) : Int :=
  if c = '(' ∨ c = '[' then depth + 1 else if c = ')' ∨ c = ']' then depth - 1 else depth

def isQuote (c : Char) : Bool := c == '"' || c == '\''

def unterminatedInString : String :=
  "Unterminated '#' interpolation in string: a '#' opened an interpolation that was never closed " ++
    "before the end of the string literal. Escape a literal hash as '##'."

def unterminatedInFile : String :=
  "Unterminated '#' interpolation in string: a '#' opened an interpolation that was never closed " ++
    "before end of file. Escape a literal hash as '##'."

def exprLoop (quote : Char) : Scanner.Loop Char ExprState Interpolation where
  body s c rest :=
    match s.stack with
    | [] =>
      if c = '#' ∧ s.depth = 0 then .stop (.closed s.out rest)
      else if isQuote c && canStartString s.out then
        .go { s with out := s.out ++ [c], stack := [.string c] } 0
      else
        let depth := bracketDepth s.depth c
        if c = quote ∧ depth ≤ 0 then .stop (.unterminated unterminatedInString rest)
        else .go { s with out := s.out ++ [c], depth } 0
    | .string q :: stack =>
      if c = q then
        if rest.head? = some q then .go { s with out := s.out ++ [q, q] } 1
        else
          -- the expression around a nested string sees that one stands there
          let stack := match stack with
            | .expr depth buf :: stack => .expr depth (buf ++ [q]) :: stack
            | stack => stack
          .go { s with out := s.out ++ [q], stack } 0
      else if c = '#' then
        if rest.head? = some '#' then .go { s with out := s.out ++ ['#', '#'] } 1
        else .go { s with out := s.out ++ ['#'], stack := .expr 0 [] :: s.stack } 0
      else .go { s with out := s.out ++ [c] } 0
    | .expr depth buf :: stack =>
      if c = '#' ∧ depth = 0 then .go { s with out := s.out ++ ['#'], stack } 0
      else if isQuote c && canStartString buf then
        .go { s with out := s.out ++ [c], stack := .string c :: s.stack } 0
      else
        .go { s with
          out := s.out ++ [c]
          stack := .expr (bracketDepth depth c) (buf ++ [c]) :: stack } 0
  atEnd _ := .unterminated unterminatedInFile []

def scanInterpolation (quote : Char) (text : Text) : Interpolation :=
  (exprLoop quote).run ⟨[], 0, []⟩ text

/-! ## Strings -/

inductive Part where
  | text (content : Text)
  | expr (content : Text)
deriving DecidableEq

def i64Max : Nat := 9223372036854775807

abbrev I64 := { i : Int // -9223372036854775808 ≤ i ∧ i ≤ 9223372036854775807 }

lemma i64_of_le {n : Nat} (h : n ≤ i64Max) : -9223372036854775808 ≤ (n : Int) ∧
    (n : Int) ≤ 9223372036854775807 := by
  unfold i64Max at h
  omega

inductive Token where
  | lParen
  | rParen
  | lBracket
  | rBracket
  | lBrace
  | rBrace
  | comma
  | colon
  | semicolon
  | minus
  | returnWord
  | boolean (b : Bool)
  | integer (i : I64)
  | double
  | string (content : Text)
  | interpolated (parts : List Part)
  | identifier (name : Text)
  | other
  | error (message : String)
deriving DecidableEq

/-- A token that runs a part of its text, or that no program may hold. -/
def Token.Bad : Token → Prop
  | .interpolated _ => True
  | .error _ => True
  | _ => False

instance : DecidablePred Token.Bad := fun t => by
  cases t <;> unfold Token.Bad <;> infer_instance

structure StringState where
  parts : List Part
  current : Text
  hasInterpolation : Bool

namespace StringState

def push (s : StringState) (c : Char) : StringState := { s with current := s.current ++ [c] }

def flushed (s : StringState) : List Part :=
  if s.current.isEmpty then s.parts else s.parts ++ [.text s.current]

def addExpr (s : StringState) (expr : Text) : StringState where
  parts := if expr.isEmpty then s.flushed else s.flushed ++ [.expr expr]
  current := []
  hasInterpolation := true

def token (s : StringState) : Token :=
  if s.hasInterpolation then .interpolated s.flushed else .string s.current

end StringState

def stringLoop (quote : Char) : Scanner.Loop Char StringState (Token × Text) where
  body s c rest :=
    if c = quote then
      if rest.head? = some quote then .go (s.push quote) 1 else .stop (s.token, rest)
    else if c = '#' then
      if rest.head? = some '#' then .go (s.push '#') 1
      else if rest.head? = some quote then .go (s.push '#') 0
      else
        match scanInterpolation quote rest with
        | .closed expr rest' => .go (s.addExpr expr) (rest.length - rest'.length)
        | .unterminated message rest' => .stop (.error message, rest')
    else .go (s.push c) 0
  atEnd s := (s.token, [])

def lexString (quote : Char) (text : Text) : Token × Text :=
  (stringLoop quote).run ⟨[], [], false⟩ text

def fractionLength : Text → Nat
  | '.' :: d :: rest => if d.isDigit then 2 + (rest.takeWhile Char.isDigit).length else 0
  | _ => 0

def exponentLength : Text → Nat
  | c :: rest =>
    if c = 'e' ∨ c = 'E' then
      let sign := if rest.head? = some '+' ∨ rest.head? = some '-' then 1 else 0
      1 + sign + ((rest.drop sign).takeWhile Char.isDigit).length
    else 0
  | [] => 0

/-- A whole number past `i64` is a floating-point literal. -/
def natToken (n : Nat) : Token :=
  if h : n ≤ i64Max then .integer ⟨n, i64_of_le h⟩ else .double

def lexNumber (first : Char) (rest : Text) : Token × Nat :=
  let digits := rest.takeWhile Char.isDigit
  let after := rest.dropWhile Char.isDigit
  let fraction := fractionLength after
  let tail := fraction + exponentLength (after.drop fraction)
  if tail = 0 then (natToken (Nat.ofDigitChars 10 (first :: digits) 0), digits.length)
  else (.double, digits.length + tail)

def isWordChar (c : Char) : Bool := c.isAlphanum || c == '_' || c == '$'

/-- The keywords a literal may hold; every other word it holds is an identifier. -/
def wordToken (word : Text) : Token :=
  let lower := word.map Char.toLower
  if lower = "true".toList then .boolean true
  else if lower = "false".toList then .boolean false
  else if lower = "return".toList then .returnWord
  else .identifier word

def emit (c : Char) (rest : Text) : List Token × Nat :=
  match c with
  | '(' => ([.lParen], 0)
  | ')' => ([.rParen], 0)
  | '[' => ([.lBracket], 0)
  | ']' => ([.rBracket], 0)
  | '\x7b' => ([.lBrace], 0)
  | '\x7d' => ([.rBrace], 0)
  | ',' => ([.comma], 0)
  | ';' => ([.semicolon], 0)
  | ':' => if rest.head? = some ':' then ([.other], 1) else ([.colon], 0)
  | '-' =>
    if rest.head? = some '=' ∨ rest.head? = some '-' ∨ rest.head? = some '>' then ([.other], 1)
    else ([.minus], 0)
  | ' ' => ([], 0)
  | '\t' => ([], 0)
  | '\r' => ([], 0)
  | '\n' => ([], 0)
  | c =>
    if isQuote c then
      let (token, rest') := lexString c rest
      ([token], rest.length - rest'.length)
    else if c.isDigit then
      let (token, skip) := lexNumber c rest
      ([token], skip)
    else if isWordChar c then
      let word := rest.takeWhile isWordChar
      ([wordToken (c :: word)], word.length)
    else ([.other], 0)

def lex (text : Text) : List Token := Scanner.rewrite emit text

/-! ## What the lexer makes of a stretch of text -/

/-- What may follow a word, a number or a string of a serialized value. -/
def isDelimiter (c : Char) : Bool := c == '(' || c == ',' || c == ')' || c == ']' || c == '\x7d' ||
    c == ':'

def Delimited (rest : Text) : Prop := ∃ c t, rest = c :: t ∧ isDelimiter c = true

lemma delimited_cons {c : Char} (hc : isDelimiter c = true) (t : Text) : Delimited (c :: t) :=
  ⟨c, t, rfl, hc⟩

lemma delimiter_cases {c : Char} (h : isDelimiter c = true) :
    c = '(' ∨ c = ',' ∨ c = ')' ∨ c = ']' ∨ c = '\x7d' ∨ c = ':' := by
  simpa [isDelimiter, or_assoc] using h

lemma lex_cons_of_emit {c : Char} {rest : Text} {token : Token} (h : emit c rest = ([token], 0)) :
    lex (c :: rest) = token :: lex rest := by
  rw [lex, Scanner.rewrite_cons, h]
  rfl

/-- **A stretch that is inert lexes to the given tokens, whatever follows it; one that is not gives
a bad token.** -/
structure Lexes (text : Text) (inert : Prop) (tokens : List Token) : Prop where
  good : ∀ t ∈ tokens, ¬t.Bad
  clean : inert → ∀ rest, Delimited rest → lex (text ++ rest) = tokens ++ lex rest
  bad : ¬inert → ∀ rest, Delimited rest → ∃ t ∈ lex (text ++ rest), t.Bad

namespace Lexes

variable {text text' : Text} {inert inert' : Prop} {tokens tokens' : List Token}

lemma nil : Lexes [] True [] where
  good _ h := (nomatch h)
  clean _ _ _ := rfl
  bad h := absurd trivial h

lemma cons {c : Char} {token : Token} (hgood : ¬token.Bad)
    (hemit : ∀ rest, Delimited rest → emit c (text ++ rest) = ([token], 0))
    (h : Lexes text inert tokens) : Lexes (c :: text) inert (token :: tokens) where
  good := by
    rintro t (_ | ⟨_, ht⟩)
    · exact hgood
    · exact h.good t ht
  clean hi rest hrest := by
    rw [cons_append, lex_cons_of_emit (hemit rest hrest), h.clean hi rest hrest]
    rfl
  bad hi rest hrest := by
    obtain ⟨t, ht, hbad⟩ := h.bad hi rest hrest
    rw [cons_append, lex_cons_of_emit (hemit rest hrest)]
    exact ⟨t, mem_cons_of_mem _ ht, hbad⟩

lemma append (h : Lexes text inert tokens) (h' : Lexes text' inert' tokens')
    (hd : ∀ rest, Delimited rest → Delimited (text' ++ rest)) :
    Lexes (text ++ text') (inert ∧ inert') (tokens ++ tokens') where
  good t ht := by
    rcases List.mem_append.1 ht with ht | ht
    · exact h.good t ht
    · exact h'.good t ht
  clean hi rest hrest := by
    rw [append_assoc, h.clean hi.1 _ (hd rest hrest), h'.clean hi.2 rest hrest, append_assoc]
  bad hi rest hrest := by
    rw [append_assoc]
    by_cases hfirst : inert
    · obtain ⟨t, ht, hbad⟩ := h'.bad (fun h2 => hi ⟨hfirst, h2⟩) rest hrest
      rw [h.clean hfirst _ (hd rest hrest)]
      exact ⟨t, mem_append_right _ ht, hbad⟩
    · exact h.bad hfirst _ (hd rest hrest)

lemma congr (h : Lexes text inert tokens) (hi : inert ↔ inert') : Lexes text inert' tokens := by
  rwa [← propext hi]

lemma token {token : Token} (hgood : ¬token.Bad)
    (h : ∀ rest, Delimited rest → lex (text ++ rest) = token :: lex rest) :
    Lexes text True [token] where
  good t ht := by
    rw [mem_singleton.1 ht]
    exact hgood
  clean _ rest hrest := h rest hrest
  bad hi := absurd trivial hi

end Lexes

variable {rest : Text} {c : Char}

lemma not_wordChar_of_delimiter (h : isDelimiter c = true) : isWordChar c = false := by
  rcases delimiter_cases h with rfl | rfl | rfl | rfl | rfl | rfl <;> decide

lemma takeWhile_append_of_delimited {p : Char → Bool} (hp : ∀ c, isDelimiter c = true → p c = false)
    {t : Text} (ht : ∀ c ∈ t, p c = true) (hrest : Delimited rest) :
    (t ++ rest).takeWhile p = t ∧ (t ++ rest).dropWhile p = rest := by
  obtain ⟨c, u, rfl, hc⟩ := hrest
  rw [takeWhile_append_of_pos ht, dropWhile_append_of_pos ht]
  simp [hp c hc]

lemma natToken_not_bad (n : Nat) : ¬(natToken n).Bad := by
  unfold natToken
  split <;> exact id

lemma wordToken_not_bad (w : Text) : ¬(wordToken w).Bad := by
  unfold wordToken
  simp only
  split_ifs <;> exact id

lemma lexes_word (c : Char) (word : Text) (hemit : ∀ rest, emit c rest
      = ([wordToken (c :: rest.takeWhile isWordChar)], (rest.takeWhile isWordChar).length))
    (hword : ∀ d ∈ word, isWordChar d = true) : Lexes (c :: word) True [wordToken (c :: word)] := by
  refine Lexes.token (wordToken_not_bad _) fun rest hrest => ?_
  have htake := (takeWhile_append_of_delimited (fun d => not_wordChar_of_delimiter) hword hrest).1
  rw [cons_append, lex, Scanner.rewrite_cons, hemit, htake]
  simp [lex]

lemma emit_digit (hc : c.isDigit = true) (rest : Text) :
    emit c rest = ([(lexNumber c rest).1], (lexNumber c rest).2) := by
  have hq : isQuote c = false := by
    rw [isQuote, Bool.or_eq_false_iff]
    constructor <;> (apply beq_false_of_ne; rintro rfl; exact absurd hc (by decide))
  unfold emit
  split <;> first | exact absurd hc (by decide) | skip
  simp [hq, hc]

lemma lexes_digits (n : Nat) : Lexes (Nat.toDigits 10 n) True [natToken n] := by
  refine Lexes.token (natToken_not_bad n) fun rest hrest => ?_
  have hdigits : ∀ c ∈ Nat.toDigits 10 n, c.isDigit = true := fun c hc =>
    Nat.isDigit_of_mem_toDigits (by decide) (by decide) hc
  have hvalue : Nat.ofDigitChars 10 (Nat.toDigits 10 n) 0 = n :=
    Nat.ofDigitChars_toDigits (by decide) (by decide)
  cases hd : Nat.toDigits 10 n with
  | nil => exact absurd hd Nat.toDigits_ne_nil
  | cons c cs =>
    rw [hd] at hdigits hvalue
    have hcs := takeWhile_append_of_delimited (p := Char.isDigit)
      (fun d hd => by rcases delimiter_cases hd with rfl | rfl | rfl | rfl | rfl | rfl <;> decide)
      (fun d hd => hdigits d (mem_cons_of_mem _ hd)) hrest
    obtain ⟨e, u, rfl, he⟩ := hrest
    have htail : fractionLength (e :: u) = 0 ∧ exponentLength (e :: u) = 0 := by
      rcases delimiter_cases he with rfl | rfl | rfl | rfl | rfl | rfl <;>
        simp [fractionLength, exponentLength]
    have hnum : lexNumber c (cs ++ e :: u) = (natToken n, cs.length) := by
      simp [lexNumber, hcs.1, hcs.2, htail.1, drop_zero, htail.2, hvalue]
    rw [cons_append, lex, Scanner.rewrite_cons, emit_digit (hdigits c mem_cons_self), hnum]
    simp [lex]

def quoted (s : Text) : Text := s.flatMap fun c => if c = '"' then ['"', '"'] else [c]

def cfmlLiteralString (s : Text) : Text := '"' :: (quoted s ++ ['"'])

/-- What the lexer reads from a literal: two hashes are one, a hash before a quote or at the end
stays, and at any other hash an interpolation opens. -/
def readBack : Text → Option Text
  | [] => some []
  | [c] => some [c]
  | c :: c' :: rest =>
    if c = '#' ∧ c' = '#' then (readBack rest).map ('#' :: ·)
    else if c = '#' ∧ c' ≠ '"' then none
    else (readBack (c' :: rest)).map (c :: ·)

/-- Every hash stands before a quote or at the end. -/
def hashSafe : Text → Bool
  | [] => true
  | [_] => true
  | c :: c' :: rest => (c != '#' || c' == '"') && hashSafe (c' :: rest)

lemma length_readBack {s u : Text} (h : readBack s = some u) : u.length ≤ s.length := by
  fun_induction readBack s generalizing u with
  | case1 | case2 c => simp_all
  | case3 c c' rest hh ih =>
    obtain ⟨w, hw, rfl⟩ := Option.map_eq_some_iff.1 h
    have := ih hw
    simp
    omega
  | case4 => exact nomatch h
  | case5 c c' rest h1 h2 ih =>
    obtain ⟨w, hw, rfl⟩ := Option.map_eq_some_iff.1 h
    have := ih hw
    simp at this ⊢
    omega

lemma readBack_eq_some_iff (s : Text) : readBack s = some s ↔ hashSafe s = true := by
  fun_induction readBack s with
  | case1 | case2 c => simp [hashSafe]
  | case3 c c' rest hh ih =>
    obtain ⟨rfl, rfl⟩ := hh
    refine ⟨fun h => ?_, fun h => by simp [hashSafe] at h⟩
    obtain ⟨w, hw, heq⟩ := Option.map_eq_some_iff.1 h
    have hlen := length_readBack hw
    have := congrArg length heq
    simp at this
    omega
  | case4 c c' rest h1 h2 =>
    refine ⟨fun h => (nomatch h), fun h => ?_⟩
    simp [hashSafe, h2.1, h2.2] at h
  | case5 c c' rest h1 h2 ih =>
    have hc : (c != '#' || c' == '"') = true := by
      by_cases hhash : c = '#'
      · have hq : c' = '"' := by
          by_contra hne
          exact h2 ⟨hhash, hne⟩
        simp [hq]
      · simp [hhash]
    rw [hashSafe, hc, Bool.true_and, ← ih]
    simp

lemma stringLoop_bad (quote : Char) {s : StringState} (hs : s.hasInterpolation = true)
    (text : Text) : ((stringLoop quote).run s text).1.Bad := by
  have htoken : ∀ s : StringState, s.hasInterpolation = true → s.token.Bad := by
    intro s hs
    simp [StringState.token, hs, Token.Bad]
  refine (stringLoop quote).run_rule (I := fun s _ => s.hasInterpolation = true)
    (Q := fun r => r.1.Bad) htoken ?_ ?_ s text hs
  · intro s c rest result hs hbody
    simp only [stringLoop] at hbody
    split_ifs at hbody
    · cases hbody
      exact htoken s hs
    · split at hbody
      · cases hbody
      · cases hbody
        exact trivial
  · intro s c rest s' skip hs hbody
    simp only [stringLoop] at hbody
    split_ifs at hbody
    iterate 3
      · cases hbody
        exact hs
    · split at hbody
      · cases hbody
        rfl
      · cases hbody
    · cases hbody
      exact hs

lemma stringLoop_interpolation (s : StringState) (h1 : rest.head? ≠ some '#')
    (h2 : rest.head? ≠ some '"') : ((stringLoop '"').run s ('#' :: rest)).1.Bad := by
  rw [Scanner.Loop.run_cons]
  have hbody : (stringLoop '"').body s '#' rest =
      match scanInterpolation '"' rest with
      | .closed expr rest' => .go (s.addExpr expr) (rest.length - rest'.length)
      | .unterminated message rest' => .stop (.error message, rest') := by
    simp only [stringLoop]
    rw [if_neg (by decide), if_pos trivial, if_neg h1, if_neg h2]
  rw [hbody]
  cases scanInterpolation '"' rest with
  | closed expr rest' => exact stringLoop_bad '"' rfl _
  | unterminated message rest' => exact trivial

lemma quoted_cons_of_ne (hc : c ≠ '"') (s : Text) : quoted (c :: s) = c :: quoted s := by
  simp [quoted, hc]

lemma quoted_quote (s : Text) : quoted ('"' :: s) = '"' :: '"' :: quoted s := by simp [quoted]

theorem stringLoop_quoted (s : Text) (hrest : rest.head? ≠ some '"') (current : Text) :
    match readBack s with
    | some u => (stringLoop '"').run ⟨[], current, false⟩ (quoted s ++ '"' :: rest)
        = (.string (current ++ u), rest)
    | none => ((stringLoop '"').run ⟨[], current, false⟩ (quoted s ++ '"' :: rest)).1.Bad := by
  have hclose : ∀ current : Text,
      (stringLoop '"').run ⟨[], current, false⟩ ('"' :: rest) = (.string current, rest) := by
    intro current
    apply Scanner.Loop.run_stop
    simp only [stringLoop, if_true, if_neg hrest]
    rfl
  have hquote : ∀ (current t : Text), (stringLoop '"').run ⟨[], current, false⟩ ('"' :: '"' :: t)
      = (stringLoop '"').run ⟨[], current ++ ['"'], false⟩ t := by
    intro current t
    exact (stringLoop '"').run_go _ 1 rfl
  have hother : ∀ (current t : Text) (c : Char), c ≠ '"' → c ≠ '#' →
      (stringLoop '"').run ⟨[], current, false⟩ (c :: t)
        = (stringLoop '"').run ⟨[], current ++ [c], false⟩ t := by
    intro current t c hq hh
    refine (stringLoop '"').run_go _ 0 ?_
    simp only [stringLoop, if_neg hq, if_neg hh]
    rfl
  -- a hash right before a quote, be it the closing one or one of a pair
  have hhash : ∀ (current t : Text), (stringLoop '"').run ⟨[], current, false⟩ ('#' :: '"' :: t)
      = (stringLoop '"').run ⟨[], current ++ ['#'], false⟩ ('"' :: t) := by
    intro current t
    exact (stringLoop '"').run_go _ 0 rfl
  fun_induction readBack s generalizing current with
  | case1 => simpa [quoted] using hclose current
  | case2 c =>
    simp only
    by_cases hq : c = '"'
    · subst hq
      rw [quoted_quote, cons_append, cons_append, hquote]
      simpa [quoted] using hclose _
    · rw [quoted_cons_of_ne hq]
      by_cases hh : c = '#'
      · subst hh
        have := hhash current rest
        simp only [quoted, flatMap_nil, cons_append, nil_append]
        rw [this]
        exact hclose _
      · simp only [quoted, flatMap_nil, cons_append, nil_append]
        rw [hother current _ c hq hh]
        exact hclose _
  | case3 c c' t hh ih =>
    obtain ⟨rfl, rfl⟩ := hh
    rw [quoted_cons_of_ne (by decide), quoted_cons_of_ne (by decide), cons_append, cons_append]
    have hgo : (stringLoop '"').run ⟨[], current, false⟩ ('#' :: '#' :: (quoted t ++ '"' :: rest))
        = (stringLoop '"').run ⟨[], current ++ ['#'], false⟩ (quoted t ++ '"' :: rest) :=
      (stringLoop '"').run_go _ 1 rfl
    rw [hgo]
    have := ih (current ++ ['#'])
    cases hr : readBack t with
    | none | some u => simpa [hr] using this
  | case4 c c' t h1 h2 =>
    obtain ⟨rfl, hne⟩ := h2
    have hne' : c' ≠ '#' := fun h => h1 ⟨rfl, h⟩
    rw [quoted_cons_of_ne (by decide), quoted_cons_of_ne hne]
    exact stringLoop_interpolation _ (by simpa using hne') (by simpa using hne)
  | case5 c c' t h1 h2 ih =>
    have hstep : (stringLoop '"').run ⟨[], current, false⟩ (quoted (c :: c' :: t) ++ '"' :: rest)
        = (stringLoop '"').run ⟨[], current ++ [c], false⟩ (quoted (c' :: t) ++ '"' :: rest) := by
      by_cases hq : c = '"'
      · subst hq
        rw [quoted_quote, cons_append, cons_append, hquote]
      · rw [quoted_cons_of_ne hq, cons_append]
        by_cases hh : c = '#'
        · subst hh
          have hc' : c' = '"' := by
            by_contra hne
            exact h2 ⟨rfl, hne⟩
          subst hc'
          rw [quoted_quote, cons_append, cons_append, hhash]
        · rw [hother current _ c hq hh]
    rw [hstep]
    have := ih (current ++ [c])
    cases hr : readBack (c' :: t) with
    | none | some u => simpa [hr] using this

def restored (s : Text) : Text := (readBack s).getD s

lemma literal_read (s : Text) (hrest : ∃ c t, rest = c :: t ∧ isDelimiter c = true) :
    cfmlLiteralString s ++ rest = '"' :: (quoted s ++ '"' :: rest) ∧ rest.head? ≠ some '"' := by
  obtain ⟨c, t, rfl, hc⟩ := hrest
  refine ⟨by simp [cfmlLiteralString], ?_⟩
  rcases delimiter_cases hc with rfl | rfl | rfl | rfl | rfl | rfl <;> simp

theorem lexes_literal (s : Text) : Lexes (cfmlLiteralString s) ((readBack s).isSome = true)
    [.string (restored s)] where
  good t ht := by
    rw [mem_singleton.1 ht]
    exact id
  clean hi rest hrest := by
    obtain ⟨u, hu⟩ := Option.isSome_iff_exists.1 hi
    obtain ⟨htext, hne⟩ := literal_read s hrest
    have hlex : lexString '"' (quoted s ++ '"' :: rest) = (.string u, rest) := by
      have hrun := stringLoop_quoted s hne []
      rwa [hu] at hrun
    have hemit :
        emit '"' (quoted s ++ '"' :: rest) = ([.string u], (quoted s ++ ['"']).length) := by
      have hemit : emit '"' (quoted s ++ '"' :: rest) =
          ([(lexString '"' (quoted s ++ '"' :: rest)).1], (quoted s ++ '"' :: rest).length -
            (lexString '"' (quoted s ++ '"' :: rest)).2.length) := rfl
      rw [hemit, hlex]
      simp
      omega
    have hdrop : (quoted s ++ '"' :: rest).drop (quoted s ++ ['"']).length = rest := by
      rw [show quoted s ++ '"' :: rest = (quoted s ++ ['"']) ++ rest by simp]
      exact drop_left
    rw [htext, lex, Scanner.rewrite_cons, hemit, hdrop, restored, hu]
    rfl
  bad hi rest hrest := by
    have hnone : readBack s = none := by simpa using hi
    obtain ⟨htext, hne⟩ := literal_read s hrest
    have hrun := stringLoop_quoted s hne []
    rw [hnone] at hrun
    rw [htext, lex, Scanner.rewrite_cons]
    exact ⟨_, mem_append_left _ mem_cons_self, hrun⟩

end RustCfml.Serialize
