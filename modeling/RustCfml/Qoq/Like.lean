import RustCfml.Lib.Lowercase
import RustCfml.Lib.Wildcard

/-!
# `LIKE`

`Like` is what a pattern means: two characters are the same when they fold to the same. **The
matchers all compute `Matches` of the elements they were built from (`matches_compile`), so what can
go wrong is the reading**: a literal is lower-cased by the first character of its lower case and the
escape character by its ASCII lower case only.
-/

namespace RustCfml.Qoq
namespace LikePattern

open Lowercase Wildcard List Option

structure CaseFolding where
  fold : Char → Char
  ascii : ∀ a b : Char, isAscii a = true → isAscii b = true →
    (fold a = fold b ↔ a.toLower = b.toLower)

variable (T : CaseTables) (F : CaseFolding)

def CaseFolding.Same (c x : Char) : Prop := F.fold c = F.fold x

instance (c x : Char) : Decidable (F.Same c x) := inferInstanceAs (Decidable (F.fold c = F.fold x))

/-! ## The regular expressions that are built

They are of one kind: `(?is)`, then pieces of the list below. -/

namespace Regex

inductive Piece where
  /-- `^` -/
  | startText
  /-- `$` -/
  | endText
  /-- `.` -/
  | dot
  /-- `.*` -/
  | dotStar
  /-- a character through `regex::escape` -/
  | lit (c : Char)
deriving DecidableEq

/-- Some number of characters, then what `k` says; the flag tells that nothing stands before. -/
def skipping (k : Bool → List Char → Bool) : Bool → List Char → Bool
  | atStart, [] => k atStart []
  | atStart, x :: t => k atStart (x :: t) || skipping k false t

def matchesHere : List Piece → Bool → List Char → Bool
  | [], _, _ => true
  | .startText :: ps, atStart, t => atStart && matchesHere ps atStart t
  | .endText :: ps, atStart, t => t.isEmpty && matchesHere ps atStart t
  | .dot :: _, _, [] => false
  | .dot :: ps, _, _ :: t => matchesHere ps false t
  | .lit _ :: _, _, [] => false
  | .lit c :: ps, _, x :: t => decide (F.Same c x) && matchesHere ps false t
  | .dotStar :: ps, atStart, t => skipping (matchesHere ps) atStart t

/-- The search may start anywhere. -/
def isMatch (ps : List Piece) (text : List Char) : Bool := skipping (matchesHere F ps) true text

end Regex

open Regex

/-! ## The source -/

def lower (c : Char) : Char := (T.toLower c).head?.getD c

def compileElems (esc : Option Char) : List Char → List (Elem Char)
  | [] => []
  | c :: chars =>
    if some (lower T c) = esc then
      match chars with
      | next :: chars => .lit (lower T next) :: compileElems esc chars
      -- dangling escape: a literal
      | [] => [.lit (lower T c)]
    else
      (match c with
        | '%' => .any
        | '_' => .one
        | _ => .lit (lower T c)) :: compileElems esc chars

inductive Inner where
  | equals (lit : List Char)
  | startsWith (lit : List Char)
  | endsWith (lit : List Char)
  | contains (lit : List Char)
  | regex (ps : List Piece)

def litRunAscii : List (Elem Char) → Option (List Char)
  | [] => some []
  | .lit c :: es => if isAscii c then (litRunAscii es).map (c :: ·) else none
  | _ :: _ => none

def startsPct (elems : List (Elem Char)) : Bool := elems.head? = some .any

def endsPct (elems : List (Elem Char)) : Bool := elems.getLast? = some .any

def piece : Elem Char → Piece
  | .any => .dotStar
  | .one => .dot
  | .lit c => .lit c

def anchored (starts ends : Bool) (body : List (Elem Char)) : List Piece :=
  (if starts then [] else [.startText]) ++ body.map piece ++ (if ends then [] else [.endText])

def buildRegex (elems : List (Elem Char)) : List Piece :=
  match startsPct elems, endsPct elems with
  | false, false => anchored false false elems
  | true, false => anchored true false elems.tail
  | false, true => anchored false true elems.dropLast
  | true, true =>
    if elems.length ≥ 2 then anchored true true elems.tail.dropLast else []

def buildInner (elems : List (Elem Char)) : Inner :=
  let fast : Option Inner :=
    match startsPct elems, endsPct elems with
    | false, false => (litRunAscii elems).map Inner.equals
    | false, true => (litRunAscii elems.dropLast).map Inner.startsWith
    | true, false => (litRunAscii elems.tail).map Inner.endsWith
    | true, true =>
      if elems.length ≥ 2 then (litRunAscii elems.tail.dropLast).map Inner.contains else none
  fast.getD (.regex (buildRegex elems))

def compile (pattern : List Char) (escape : Option Char) : Inner :=
  buildInner (compileElems T (escape.map Char.toLower) pattern)

def regexForLiteral (n : List Char) (anchorStart anchorEnd : Bool) : List Piece :=
  (if anchorStart then [.startText] else []) ++ n.map .lit ++ (if anchorEnd then [.endText] else [])

/-- `eq_ignore_ascii_case` over two zipped slices. -/
def allSame (a b : List Char) : Bool := (a.zip b).all fun p => p.1.toLower = p.2.toLower

def asciiCiEquals (haystack needle : List Char) : Bool :=
  haystack.length = needle.length && allSame haystack needle

def asciiCiStartsWith (haystack needle : List Char) : Bool :=
  haystack.length ≥ needle.length && allSame (haystack.take needle.length) needle

def asciiCiEndsWith (haystack needle : List Char) : Bool :=
  haystack.length ≥ needle.length &&
    allSame (haystack.drop (haystack.length - needle.length)) needle

def asciiCiContains (haystack needle : List Char) : Bool :=
  if needle.isEmpty then true
  else if haystack.length < needle.length then false
  else (List.range (haystack.length - needle.length + 1)).any fun i =>
    allSame ((haystack.drop i).take needle.length) needle

def Inner.isMatch (inner : Inner) (text : List Char) : Bool :=
  match inner with
  | .equals n =>
    if text.all isAscii then asciiCiEquals text n
    else Regex.isMatch F (regexForLiteral n true true) text
  | .startsWith n =>
    if text.all isAscii then asciiCiStartsWith text n
    else Regex.isMatch F (regexForLiteral n true false) text
  | .endsWith n =>
    if text.all isAscii then asciiCiEndsWith text n
    else Regex.isMatch F (regexForLiteral n false true) text
  | .contains n =>
    if text.all isAscii then asciiCiContains text n
    else Regex.isMatch F (regexForLiteral n false false) text
  | .regex ps => Regex.isMatch F ps text

def likeMatch (text pattern : List Char) (escape : Option Char) : Bool :=
  (compile T pattern escape).isMatch F text

def IsEscape (escape : Option Char) (c : Char) : Prop := ∃ e, escape = some e ∧ F.Same c e

inductive Like (escape : Option Char) : List Char → List Char → Prop
  | nil : Like escape [] []
  | escaped {c d x : Char} {p t : List Char} :
      IsEscape F escape c → F.Same d x → Like escape p t → Like escape (c :: d :: p) (x :: t)
  | dangling {c x : Char} : IsEscape F escape c → F.Same c x → Like escape [c] [x]
  | percentStop {p t : List Char} :
      ¬ IsEscape F escape '%' → Like escape p t → Like escape ('%' :: p) t
  | percentMore {p t : List Char} {x : Char} :
      ¬ IsEscape F escape '%' → Like escape ('%' :: p) t → Like escape ('%' :: p) (x :: t)
  | underscore {p t : List Char} {x : Char} :
      ¬ IsEscape F escape '_' → Like escape p t → Like escape ('_' :: p) (x :: t)
  | letter {c x : Char} {p t : List Char} :
      ¬ IsEscape F escape c → c ≠ '%' → c ≠ '_' → F.Same c x → Like escape p t →
      Like escape (c :: p) (x :: t)

structure Reads (escape : Option Char) (c : Char) : Prop where
  escape : some (lower T c) = escape.map Char.toLower ↔ IsEscape F escape c
  literal : F.Same (lower T c) c

variable {t : List Char} {atStart starts ends : Bool} {body : List (Elem Char)}

lemma skipping_iff {k : Bool → List Char → Bool} :
    skipping k atStart t = true ↔ ∃ s u, t = s ++ u ∧ k (atStart && s.isEmpty) u = true := by
  induction t generalizing atStart with
  | nil => simp [skipping]
  | cons x t ih =>
    rw [skipping, Bool.or_eq_true, ih]
    constructor
    · rintro (h | ⟨s, u, rfl, h⟩)
      · exact ⟨[], x :: t, rfl, by simpa using h⟩
      · exact ⟨x :: s, u, rfl, by simpa using h⟩
    · rintro ⟨s, u, htext, h⟩
      cases s with
      | nil =>
        obtain rfl : x :: t = u := htext
        exact .inl (by simpa using h)
      | cons y s =>
        obtain ⟨rfl, rfl⟩ := cons.inj htext
        exact .inr ⟨s, u, rfl, by simpa using h⟩

lemma matchesHere_body (ends : Bool) (body : List (Elem Char)) :
    matchesHere F (body.map piece ++ if ends then [] else [.endText]) atStart t = true ↔
      ∃ s u, t = s ++ u ∧ Matches F.Same body s ∧ (ends = false → u = []) := by
  induction body generalizing atStart t with
  | nil =>
    cases ends with
    | false | true => simp [matchesHere]
  | cons e body ih =>
    cases e with
    | one =>
      cases t with
      | nil => simp [piece, matchesHere]
      | cons x t =>
        rw [map_cons, cons_append, piece, matchesHere, ih]
        constructor
        · rintro ⟨s, u, rfl, hs, hu⟩
          exact ⟨x :: s, u, rfl, .one hs, hu⟩
        · rintro ⟨s, u, htext, hs, hu⟩
          obtain ⟨y, s', rfl, hs'⟩ := matches_one_iff.1 hs
          obtain ⟨rfl, rfl⟩ := cons.inj htext
          exact ⟨s', u, rfl, hs', hu⟩
    | lit c =>
      cases t with
      | nil => simp [piece, matchesHere]
      | cons x t =>
        rw [map_cons, cons_append, piece, matchesHere, Bool.and_eq_true, decide_eq_true_iff, ih]
        constructor
        · rintro ⟨hx, s, u, rfl, hs, hu⟩
          exact ⟨x :: s, u, rfl, .lit hx hs, hu⟩
        · rintro ⟨s, u, htext, hs, hu⟩
          obtain ⟨y, s', rfl, hy, hs'⟩ := matches_lit_iff.1 hs
          obtain ⟨rfl, rfl⟩ := cons.inj htext
          exact ⟨hy, s', u, rfl, hs', hu⟩
    | any =>
      rw [map_cons, cons_append, piece, matchesHere, skipping_iff]
      simp only [ih]
      constructor
      · rintro ⟨a, _, rfl, s, u, rfl, hs, hu⟩
        exact ⟨a ++ s, u, (append_assoc a s u).symm, hs.any_append a, hu⟩
      · rintro ⟨s, u, rfl, hs, hu⟩
        obtain ⟨a, s', rfl, hs'⟩ := matches_any_iff.1 hs
        exact ⟨a, s' ++ u, append_assoc a s' u, s', u, rfl, hs', hu⟩

def opened (starts ends : Bool) (body : List (Elem Char)) : List (Elem Char) :=
  (if starts then [.any] else []) ++ body ++ (if ends then [.any] else [])

lemma matches_opened : Matches F.Same (opened starts ends body) t ↔ ∃ a s u, t = a ++ (s ++ u) ∧
      (starts = false → a = []) ∧ Matches F.Same body s ∧ (ends = false → u = []) := by
  have hback : ∀ {t : List Char}, Matches F.Same (body ++ if ends then [.any] else []) t ↔
      ∃ s u, t = s ++ u ∧ Matches F.Same body s ∧ (ends = false → u = []) := by
    intro t
    cases ends with
    | false => simp
    | true => simp [matches_append_any]
  rw [opened, append_assoc]
  cases starts with
  | false => simp [hback]
  | true =>
    rw [if_pos rfl, singleton_append, matches_any_iff]
    simp only [hback]
    constructor
    · rintro ⟨a, _, rfl, s, u, rfl, hs, hu⟩
      exact ⟨a, s, u, rfl, nofun, hs, hu⟩
    · rintro ⟨a, s, u, rfl, -, hs, hu⟩
      exact ⟨a, _, rfl, s, u, rfl, hs, hu⟩

lemma isMatch_anchored : Regex.isMatch F (anchored starts ends body) t = true ↔
      Matches F.Same (opened starts ends body) t := by
  rw [Regex.isMatch, skipping_iff, matches_opened]
  cases starts with
  | true =>
    simp only [anchored, if_true, nil_append, matchesHere_body]
    constructor
    · rintro ⟨a, _, rfl, s, u, rfl, hs, hu⟩
      exact ⟨a, s, u, rfl, nofun, hs, hu⟩
    · rintro ⟨a, s, u, rfl, -, hs, hu⟩
      exact ⟨a, _, rfl, s, u, rfl, hs, hu⟩
  | false =>
    -- the first piece holds at the start only
    have hfront : ∀ {b : Bool} {u : List Char},
        matchesHere F (anchored false ends body) b u = true ↔ b = true ∧
          ∃ s v, u = s ++ v ∧ Matches F.Same body s ∧ (ends = false → v = []) := by
      intro b u
      rw [← matchesHere_body F ends body]
      exact Bool.and_eq_true_iff
    simp only [hfront, Bool.true_and, List.isEmpty_iff]
    constructor
    · rintro ⟨a, _, rfl, rfl, s, u, rfl, hs, hu⟩
      exact ⟨[], s, u, rfl, fun _ => rfl, hs, hu⟩
    · rintro ⟨a, s, u, rfl, ha, hs, hu⟩
      exact ⟨a, _, rfl, ha trivial, s, u, rfl, hs, hu⟩

section

variable {F} {n t : List Char}

lemma allSame_iff : ∀ {a b : List Char}, (∀ c ∈ a, isAscii c = true) →
    (∀ c ∈ b, isAscii c = true) → a.length = b.length →
    (allSame a b = true ↔ List.Forall₂ F.Same b a)
  | [], [], _, _, _ => by simp [allSame]
  | x :: a, y :: b, ha, hb, hlen => by
    have ih := allSame_iff (a := a) (b := b) (fun c hc => ha c (mem_cons_of_mem _ hc))
      (fun c hc => hb c (mem_cons_of_mem _ hc)) (Nat.succ.inj hlen)
    have hxy := F.ascii y x (hb y mem_cons_self) (ha x mem_cons_self)
    rw [forall₂_cons, ← ih, CaseFolding.Same, hxy]
    rw [allSame, zip_cons_cons, all_cons, Bool.and_eq_true, decide_eq_true_iff, eq_comm]
    rfl

lemma exists_window {p : Nat → Prop} :
    (∃ i, i + n.length ≤ t.length ∧ p i ∧ Forall₂ F.Same n ((t.drop i).take n.length)) ↔
      ∃ a s u, t = a ++ (s ++ u) ∧ p a.length ∧ Forall₂ F.Same n s := by
  constructor
  · rintro ⟨i, hi, hp, hs⟩
    refine ⟨t.take i, _, (t.drop i).drop n.length, ?_, ?_, hs⟩
    · rw [take_append_drop, take_append_drop]
    · rw [length_take, Nat.min_eq_left (by omega)]
      exact hp
  · rintro ⟨a, s, u, rfl, hp, hs⟩
    have hlen := hs.length_eq
    refine ⟨a.length, ?_, hp, ?_⟩
    · simp only [length_append]
      omega
    · rw [drop_left, hlen, take_left]
      exact hs

variable (hn : ∀ c ∈ n, isAscii c = true) (ht : ∀ c ∈ t, isAscii c = true)
include hn ht

lemma allSame_window {i : Nat} (hi : i + n.length ≤ t.length) :
    allSame ((t.drop i).take n.length) n = true ↔
      Forall₂ F.Same n ((t.drop i).take n.length) := by
  apply allSame_iff
  · intro c hc
    exact ht c (mem_of_mem_drop (mem_of_mem_take hc))
  · exact hn
  · rw [length_take, length_drop]
    omega

lemma asciiCiEquals_iff : asciiCiEquals t n = true ↔
    Matches F.Same (opened false false (n.map .lit)) t := by
  rw [asciiCiEquals, Bool.and_eq_true, decide_eq_true_iff]
  simp [opened, matches_map_lit]
  constructor
  · rintro ⟨hlen, h⟩
    exact (allSame_iff ht hn hlen).1 h
  · intro h
    exact ⟨h.length_eq.symm, (allSame_iff ht hn h.length_eq.symm).2 h⟩

lemma asciiCiStartsWith_iff : asciiCiStartsWith t n = true ↔
    Matches F.Same (opened false true (n.map .lit)) t := by
  have hwindow := @exists_window F n t (· = 0)
  rw [asciiCiStartsWith, Bool.and_eq_true, decide_eq_true_iff, matches_opened]
  simp only [matches_map_lit]
  constructor
  · rintro ⟨hlen, h⟩
    have h0 : allSame ((t.drop 0).take n.length) n = true := h
    obtain ⟨a, s, u, ht', ha, hs⟩ := hwindow.1
      ⟨0, by omega, rfl, (allSame_window hn ht (by omega)).1 h0⟩
    exact ⟨a, s, u, ht', fun _ => length_eq_zero_iff.1 ha, hs, nofun⟩
  · rintro ⟨a, s, u, ht', ha, hs, -⟩
    obtain ⟨i, hi, rfl, hs⟩ := hwindow.2 ⟨a, s, u, ht', length_eq_zero_iff.2 (ha trivial), hs⟩
    exact ⟨by omega, (allSame_window hn ht hi).2 hs⟩

lemma asciiCiEndsWith_iff : asciiCiEndsWith t n = true ↔
    Matches F.Same (opened true false (n.map .lit)) t := by
  have hwindow := @exists_window F n t (fun i => i + n.length = t.length)
  have htake : ∀ {i : Nat}, i + n.length = t.length → (t.drop i).take n.length = t.drop i := by
    intro i hi
    apply take_of_length_le
    rw [length_drop]
    omega
  rw [asciiCiEndsWith, Bool.and_eq_true, decide_eq_true_iff, matches_opened]
  simp only [matches_map_lit]
  constructor
  · rintro ⟨hlen, h⟩
    have hi : t.length - n.length + n.length = t.length := by omega
    rw [← htake hi] at h
    obtain ⟨a, s, u, rfl, ha, hs⟩ :=
      hwindow.1 ⟨_, by omega, hi, (allSame_window hn ht (by omega)).1 h⟩
    have hs' := hs.length_eq
    simp only [length_append] at ha
    refine ⟨a, s, u, rfl, nofun, hs, fun _ => length_eq_zero_iff.1 (by omega)⟩
  · rintro ⟨a, s, u, rfl, -, hs, hu⟩
    obtain rfl := hu trivial
    have hlen : a.length + n.length = (a ++ (s ++ [])).length := by simp [hs.length_eq]
    obtain ⟨i, hi, hend, hs⟩ := hwindow.2 ⟨a, s, [], rfl, hlen, hs⟩
    have hstart : (a ++ (s ++ [])).length - n.length = i := by omega
    rw [hstart, ← htake hend]
    exact ⟨by omega, (allSame_window hn ht hi).2 hs⟩

lemma asciiCiContains_iff : asciiCiContains t n = true ↔
    Matches F.Same (opened true true (n.map .lit)) t := by
  have hwindow := @exists_window F n t (fun _ => True)
  have hopened : Matches F.Same (opened true true (n.map .lit)) t ↔
      ∃ i, i + n.length ≤ t.length ∧ True ∧ List.Forall₂ F.Same n ((t.drop i).take n.length) := by
    rw [hwindow, matches_opened]
    simp [matches_map_lit]
  rw [hopened, asciiCiContains]
  by_cases hempty : n = []
  · subst hempty
    simp only [isEmpty_nil, if_true, true_iff]
    exact ⟨0, Nat.zero_le _, trivial, by simp⟩
  rw [if_neg (by simpa using hempty)]
  by_cases hlen : t.length < n.length
  · rw [if_pos hlen]
    constructor
    · intro h
      cases h
    · rintro ⟨i, hi, -⟩
      omega
  · rw [if_neg hlen, List.any_eq_true]
    constructor
    · rintro ⟨i, hi, h⟩
      have hi' := mem_range.1 hi
      exact ⟨i, by omega, trivial, (allSame_window hn ht (by omega)).1 h⟩
    · rintro ⟨i, hi, -, h⟩
      exact ⟨i, mem_range.2 (by omega), (allSame_window hn ht hi).2 h⟩

end

/-! ## Every matcher decides its elements -/

lemma litRunAscii_spec : ∀ {es : List (Elem Char)} {n : List Char}, litRunAscii es = some n →
    es = n.map .lit ∧ ∀ c ∈ n, isAscii c = true
  | [], n, h => by
    obtain rfl : [] = n := some.inj h
    exact ⟨rfl, nofun⟩
  | .lit c :: es, n, h => by
    rw [litRunAscii] at h
    split at h
    next hc =>
      obtain ⟨m, hm, rfl⟩ := map_eq_some_iff.1 h
      obtain ⟨rfl, hm'⟩ := litRunAscii_spec hm
      exact ⟨rfl, forall_mem_cons.2 ⟨hc, hm'⟩⟩
    next => cases h
  | .any :: _, _, h => by cases h
  | .one :: _, _, h => by cases h

variable (elems : List (Elem Char))

lemma elems_cases : elems = [.any] ∨ ∃ starts ends body, elems = opened starts ends body ∧
      startsPct elems = starts ∧ endsPct elems = ends := by
  cases hs : startsPct elems with
  | false =>
    right
    cases he : endsPct elems with
    | false => exact ⟨false, false, elems, by simp [opened], rfl, rfl⟩
    | true =>
      refine ⟨false, true, elems.dropLast, ?_, rfl, rfl⟩
      have hlast : elems.getLast? = some .any := by simpa [endsPct] using he
      simpa [opened] using (dropLast_append_getLast? _ hlast).symm
  | true =>
    obtain ⟨body, rfl⟩ : ∃ body, elems = .any :: body := by
      cases elems with
      | nil => cases hs
      | cons e body => exact ⟨body, by simpa [startsPct] using hs⟩
    cases he : endsPct (.any :: body) with
    | false => exact .inr ⟨true, false, body, by simp [opened], rfl, rfl⟩
    | true =>
      cases body with
      | nil => exact .inl rfl
      | cons e body =>
        have hlast :
          (e :: body).getLast? = some .any := by simpa [endsPct, getLast?_cons_cons] using he
        refine .inr ⟨true, true, (e :: body).dropLast, ?_, rfl, rfl⟩
        show _ = [Elem.any] ++ (e :: body).dropLast ++ [.any]
        rw [append_assoc, dropLast_append_getLast? _ hlast]
        rfl

variable {starts ends : Bool} {body : List (Elem Char)}

section

variable (hs : startsPct (opened starts ends body) = starts)
    (he : endsPct (opened starts ends body) = ends)
include hs he

lemma buildRegex_opened : buildRegex (opened starts ends body) = anchored starts ends body := by
  rw [buildRegex, hs, he]
  cases starts <;> cases ends <;> simp [opened]

lemma buildInner_opened :
    buildInner (opened starts ends body) = ((litRunAscii body).map (match starts, ends with
        | false, false => Inner.equals
        | false, true => .startsWith
        | true, false => .endsWith
        | true, true => .contains)).getD (.regex (anchored starts ends body)) := by
  rw [buildInner, buildRegex_opened hs he, hs, he]
  cases starts <;> cases ends <;> simp [opened]

end

lemma regexForLiteral_eq (n : List Char) (starts ends : Bool) :
    regexForLiteral n (!starts) (!ends) = anchored starts ends (n.map .lit) := by
  have hpieces : (n.map Elem.lit).map piece = n.map .lit := by
    rw [List.map_map]
    rfl
  rw [regexForLiteral, anchored, hpieces]
  cases starts <;> cases ends <;> rfl

lemma isMatch_buildRegex (t : List Char) : Regex.isMatch F (buildRegex elems) t = true ↔
    Matches F.Same elems t := by
  obtain rfl | ⟨starts, ends, body, rfl, hs, he⟩ := elems_cases elems
  · -- the empty expression
    have hall : Matches F.Same [.any] t := matches_any_iff.2 ⟨t, [], (append_nil t).symm, .nil⟩
    exact iff_of_true (by rw [Regex.isMatch, skipping_iff]; exact ⟨[], t, rfl, rfl⟩) hall
  · rw [buildRegex_opened hs he, isMatch_anchored]

lemma isMatch_buildInner (t : List Char) : (buildInner elems).isMatch F t = true ↔
    Matches F.Same elems t := by
  obtain rfl | ⟨starts, ends, body, rfl, hs, he⟩ := elems_cases elems
  · exact isMatch_buildRegex F [.any] t
  rw [buildInner_opened hs he]
  cases hrun : litRunAscii body with
  | none => exact isMatch_anchored F
  | some n =>
    obtain ⟨rfl, hn⟩ := litRunAscii_spec hrun
    have hslow : ∀ b b', b = !starts → b' = !ends →
      (Regex.isMatch F (regexForLiteral n b b') t = true ↔
          Matches F.Same (opened starts ends (n.map .lit)) t) := by
      rintro _ _ rfl rfl
      rw [regexForLiteral_eq, isMatch_anchored]
    by_cases hascii : t.all isAscii = true
    · have ht : ∀ c ∈ t, isAscii c = true := all_eq_true.1 hascii
      cases starts <;> cases ends <;>
        simp [Inner.isMatch, hascii]
      · exact asciiCiEquals_iff hn ht
      · exact asciiCiStartsWith_iff hn ht
      · exact asciiCiEndsWith_iff hn ht
      · exact asciiCiContains_iff hn ht
    · cases starts <;> cases ends <;>
        simp only [map_some, getD_some, Inner.isMatch, hascii] <;>
        exact hslow _ _ rfl rfl

section

variable {T F} {escape : Option Char}

variable {t : List Char}

lemma like_nil_iff : Like F escape [] t ↔ t = [] := by
  constructor
  · intro h
    cases h
    rfl
  · rintro rfl
    exact .nil

variable {c : Char} {p : List Char} {esc : Option Char}

lemma like_escaped_iff {d : Char} (hc : IsEscape F escape c) :
    Like F escape (c :: d :: p) t ↔ ∃ x u, t = x :: u ∧ F.Same d x ∧ Like F escape p u := by
  constructor
  · intro h
    cases h with
    | escaped _ hd h => exact ⟨_, _, rfl, hd, h⟩
    | percentStop hne | percentMore hne | underscore hne | letter hne => exact absurd hc hne
  · rintro ⟨x, u, rfl, hd, h⟩
    exact .escaped hc hd h

lemma like_dangling_iff (hc : IsEscape F escape c) : Like F escape [c] t ↔ ∃ x, t = [x] ∧
    F.Same c x := by
  constructor
  · intro h
    cases h with
    | dangling _ hx => exact ⟨_, rfl, hx⟩
    | percentStop hne | percentMore hne | underscore hne | letter hne => exact absurd hc hne
  · rintro ⟨x, rfl, hx⟩
    exact .dangling hc hx

lemma like_percent_iff (hne : ¬ IsEscape F escape '%') :
    Like F escape ('%' :: p) t ↔ ∃ s u, t = s ++ u ∧ Like F escape p u := by
  constructor
  · intro h
    generalize hp : '%' :: p = p0 at h
    induction h with
    | percentStop _ h _ => exact ⟨[], _, rfl, (cons.inj hp).2 ▸ h⟩
    | percentMore _ _ ih =>
      obtain ⟨s, u, rfl, hu⟩ := ih hp
      exact ⟨_ :: s, u, rfl, hu⟩
    | escaped hc | dangling hc => exact absurd ((cons.inj hp).1 ▸ hc) hne
    | letter _ hpct => exact absurd (cons.inj hp).1.symm hpct
    | underscore | nil => cases hp
  · rintro ⟨s, u, rfl, h⟩
    induction s with
    | nil => exact .percentStop hne h
    | cons x s ih => exact .percentMore hne ih

lemma like_underscore_iff (hne : ¬ IsEscape F escape '_') :
    Like F escape ('_' :: p) t ↔ ∃ x u, t = x :: u ∧ Like F escape p u := by
  constructor
  · intro h
    cases h with
    | underscore _ h => exact ⟨_, _, rfl, h⟩
    | escaped hc | dangling hc => exact absurd hc hne
    | letter _ _ hund => exact absurd rfl hund
  · rintro ⟨x, u, rfl, h⟩
    exact .underscore hne h

lemma like_letter_iff (hne : ¬ IsEscape F escape c) (hpct : c ≠ '%') (hund : c ≠ '_') :
    Like F escape (c :: p) t ↔ ∃ x u, t = x :: u ∧ F.Same c x ∧ Like F escape p u := by
  constructor
  · intro h
    cases h with
    | letter _ _ _ hx h => exact ⟨_, _, rfl, hx, h⟩
    | escaped hc | dangling hc => exact absurd hc hne
    | percentStop | percentMore => exact absurd rfl hpct
    | underscore => exact absurd rfl hund
  · rintro ⟨x, u, rfl, hx, h⟩
    exact .letter hne hpct hund hx h

lemma compileElems_dangling (h : some (lower T c) = esc) :
    compileElems T esc [c] = [.lit (lower T c)] := by
  simp [compileElems, h]

lemma compileElems_escaped (h : some (lower T c) = esc) (d : Char)
    (p : List Char) : compileElems T esc (c :: d :: p) = .lit (lower T d) ::
    compileElems T esc p := by
  simp [compileElems, h]

def plainElem (T : CaseTables) (c : Char) : Elem Char :=
  match c with
  | '%' => .any
  | '_' => .one
  | _ => .lit (lower T c)

lemma compileElems_plain (h : some (lower T c) ≠ esc)
    (p : List Char) : compileElems T esc (c :: p) = plainElem T c :: compileElems T esc p := by
  rw [compileElems.eq_def]
  exact if_neg h

lemma matches_compileElems : ∀ {p : List Char}, (∀ c ∈ p, Reads T F escape c) →
    ∀ {t : List Char}, Matches F.Same (compileElems T (escape.map Char.toLower) p) t ↔
    Like F escape p t
  | [], _, t => by rw [compileElems, matches_nil_iff, like_nil_iff]
  | c :: p, hreads, t => by
    have hc := hreads c mem_cons_self
    have hlit : ∀ d ∈ c :: p, ∀ x, F.Same (lower T d) x ↔ F.Same d x := by
      intro d hd x
      rw [CaseFolding.Same, (hreads d hd).literal]
      rfl
    by_cases hesc : IsEscape F escape c
    · have hcode := hc.escape.2 hesc
      cases p with
      | nil =>
        rw [compileElems_dangling hcode, like_dangling_iff hesc, matches_lit_iff]
        simp only [matches_nil_iff, hlit c mem_cons_self]
        constructor
        · rintro ⟨x, u, rfl, hx, rfl⟩
          exact ⟨x, rfl, hx⟩
        · rintro ⟨x, rfl, hx⟩
          exact ⟨x, [], rfl, hx, rfl⟩
      | cons d p =>
        have ih := @matches_compileElems p fun e he => hreads e (by simp [he])
        rw [compileElems_escaped hcode, like_escaped_iff hesc, matches_lit_iff]
        simp [ih, hlit d (by simp)]
    · have ih := @matches_compileElems p (forall_mem_cons.1 hreads).2
      rw [compileElems_plain fun h => hesc (hc.escape.1 h)]
      unfold plainElem
      split
      · rw [like_percent_iff hesc, matches_any_iff]
        simp [ih]
      · rw [like_underscore_iff hesc, matches_one_iff]
        simp [ih]
      next hpct hund =>
        rw [like_letter_iff hesc hpct hund, matches_lit_iff]
        simp [ih, hlit c mem_cons_self]

lemma same_refl (c : Char) : F.Same c c := rfl

lemma like_self (hne : ¬ IsEscape F escape c) (h : Like F escape p t) :
    Like F escape (c :: p) (c :: t) := by
  by_cases hpct : c = '%'
  · subst hpct
    exact .percentMore hne (.percentStop hne h)
  by_cases hund : c = '_'
  · subst hund
    exact .underscore hne h
  · exact .letter hne hpct hund (same_refl c) h

lemma lower_of_isAscii (h : isAscii c = true) : lower T c = c.toLower := by
  rw [lower, T.ascii c (by simpa [isAscii] using h)]
  rfl

section

variable {c : Char}
  (hexact : ∀ p : List Char, (∀ d ∈ p, d = c) → ∀ t,
    Matches F.Same (compileElems T (escape.map Char.toLower) p) t ↔ Like F escape p t)

include hexact

lemma reads_escape : some (lower T c) = escape.map Char.toLower ↔ IsEscape F escape c := by
  have hpair := hexact [c, c] (by simp)
  constructor
  · intro hcode
    by_contra hne
    have hlike : Like F escape [c, c] [c, c] := like_self hne (like_self hne .nil)
    rw [← hpair, compileElems_escaped hcode] at hlike
    obtain ⟨x, u, htext, -, hu⟩ := matches_lit_iff.1 hlike
    obtain ⟨-, rfl⟩ := cons.inj htext
    cases hu
  · intro hesc
    by_contra hcode
    have hlike : Like F escape [c, c] [c] := .escaped hesc (same_refl c) .nil
    rw [← hpair, compileElems_plain hcode, compileElems_plain hcode, compileElems] at hlike
    have hmatch := @hpair []
    rw [compileElems_plain hcode, compileElems_plain hcode, compileElems] at hmatch
    -- two elements that match one character: both are `%`, and match none as well
    have hany : plainElem T c = .any := by
      cases hk : plainElem T c with
      | any => rfl
      | one =>
        rw [hk] at hlike
        cases hlike with
        | one h => cases h
      | lit d =>
        rw [hk] at hlike
        cases hlike with
        | lit _ h => cases h
    rw [hany] at hmatch
    have hempty := hmatch.1 (.stop (.stop .nil))
    rw [like_escaped_iff hesc] at hempty
    obtain ⟨x, u, htext, -⟩ := hempty
    cases htext

lemma reads_literal : F.Same (lower T c) c := by
  have hesc := reads_escape hexact
  have hone := hexact [c] (by simp)
  by_cases hcode : some (lower T c) = escape.map Char.toLower
  · have hlike : Like F escape [c] [c] := .dangling (hesc.1 hcode) (same_refl c)
    rw [← hone, compileElems_dangling hcode] at hlike
    cases hlike with
    | lit h => exact h
  · have hlike : Like F escape [c] [c] := like_self (fun h => hcode (hesc.2 h)) .nil
    rw [← hone, compileElems_plain hcode] at hlike
    unfold plainElem at hlike
    split at hlike
    iterate 2
      · rw [lower_of_isAscii (by decide)]
        rfl
    · cases hlike with
      | lit h => exact h

end

end

/-- Over the patterns with these characters, the matcher tells what the pattern means, and the
matcher that was picked agrees with the regular expression. -/
def LikeExact (escape : Option Char) (S : Set Char) : Prop :=
  ∀ pattern : List Char, (∀ c ∈ pattern, c ∈ S) → ∀ text : List Char,
    (likeMatch T F text pattern escape = true ↔ Like F escape pattern text) ∧
    likeMatch T F text pattern escape =
      Regex.isMatch F (buildRegex (compileElems T (escape.map Char.toLower) pattern)) text

/-- **`LIKE` is right on exactly the characters it reads right.** -/
theorem likeExact_iff (escape : Option Char) (S : Set Char) : LikeExact T F escape S ↔ ∀ c ∈ S,
    Reads T F escape c := by
  constructor
  · intro h c hc
    have hexact : ∀ p : List Char, (∀ d ∈ p, d = c) → ∀ t,
        Matches F.Same (compileElems T (escape.map Char.toLower) p) t ↔ Like F escape p t := by
      intro p hp t
      rw [← (h p (fun d hd => hp d hd ▸ hc) t).1, likeMatch, compile, isMatch_buildInner]
    exact ⟨reads_escape hexact, reads_literal hexact⟩
  · intro h pattern hpattern text
    constructor
    · rw [likeMatch, compile, isMatch_buildInner,
        matches_compileElems fun c hc => h c (hpattern c hc)]
    · rw [Bool.eq_iff_iff, likeMatch, compile, isMatch_buildInner, isMatch_buildRegex]

def twoLetters : CaseTables where
  toLower c := if c = 'É' then ['é'] else if c = 'İ' then ['i', '\u0307'] else [c.toLower]
  cased _ := false
  caseIgnorable _ := false
  ascii c hc := by
    have h₁ : c ≠ 'É' := by
      rintro rfl
      exact absurd hc (by decide)
    have h₂ : c ≠ 'İ' := by
      rintro rfl
      exact absurd hc (by decide)
    rw [if_neg h₁, if_neg h₂]

def twoFoldings : CaseFolding where
  fold c := if c = 'É' then 'é' else c.toLower
  ascii a b ha hb := by
    have hne : ∀ c, isAscii c = true → c ≠ 'É' := by
      rintro c hc rfl
      exact absurd hc (by decide)
    rw [if_neg (hne a ha), if_neg (hne b hb)]

/-- The text `İ` is not found by the pattern `İ`, which is read as `i`; and `É` is not taken for the
escape character it is. -/
theorem like_misread : (likeMatch twoLetters twoFoldings ['İ'] ['İ'] none = false ∧
      Like twoFoldings none ['İ'] ['İ']) ∧
    (likeMatch twoLetters twoFoldings ['%'] ['É', '%'] (some 'É') = false ∧
      Like twoFoldings (some 'É') ['É', '%'] ['%']) := by
  have hnone : ∀ c, ¬ IsEscape twoFoldings none c := by
    rintro c ⟨e, he, -⟩
    cases he
  refine ⟨⟨by decide, ?_⟩, by decide, ?_⟩
  · exact like_self (hnone 'İ') .nil
  · exact .escaped ⟨'É', rfl, rfl⟩ rfl .nil

end LikePattern
end RustCfml.Qoq
