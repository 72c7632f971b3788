import Mathlib.Data.List.Chain

/-!
# URL rewriting (`cli/src/rewrite.rs`)

A rule's target is rewritten group by group, each in the text that the last replacement has left. A
group's text may then be read as a reference, `$10` as `$1`, and the reference to a group that took
no part stays. **The target is put together at once where its references are direct**, which allows
any number of groups, references of several digits, and a `$` that begins no reference. -/

namespace RustCfml.Rewrite

open List

abbrev Text := List Char

/-- `str::replace`; the rest of a replaced match is skipped. -/
def replaceFrom (pat text : Text) : Nat → Text → Text
  | _, [] => []
  | skip + 1, _ :: s => replaceFrom pat text skip s
  | 0, c :: s =>
    if pat <+: c :: s then text ++ replaceFrom pat text (pat.length - 1) s
    else c :: replaceFrom pat text 0 s

def replace (pat text s : Text) : Text := replaceFrom pat text 0 s

inductive RewriteType where
  | forward
  | redirect
  | permanentRedirect

/-- Over patterns `π`, with how they are matched, and conditions `κ`. -/
structure RewriteRule (π κ : Type) where
  enabled : Bool
  pattern : π
  target : Option Text
  toType : RewriteType
  toLast : Bool
  conditions : List (κ × Bool)
  setStatus : Option Nat

structure RewriteResult where
  newPath : Text
  rewriteType : RewriteType
  status : Option Nat

/-- The texts of a match, the whole of it first. -/
abbrev Captures := List (Option Text)

/-- The regular expressions and the request: a pattern that does not compile matches nothing. -/
structure Engine (π κ : Type) where
  captures : π → Text → Option Captures
  checkCondition : κ → Text → Bool

variable {π κ : Type} (E : Engine π κ)

/-- Conditions from left to right; each says how the next one is joined. -/
def conditionsPass (conditions : List (κ × Bool)) (path : Text) : Bool :=
  (conditions.foldl (fun (passing, orWithNext) (c, nextOr) =>
    let hit := E.checkCondition c path
    (if orWithNext then passing || hit else passing && hit, nextOr)) (true, false)).1

/-- The variable for the context path, which a root deployment does not have. -/
def contextPath : Text := "%\x7bcontext-path\x7d".toList

/-- How a target refers to a group. -/
def reference (n : Nat) : Text := '$' :: Nat.toDigits 10 n

/-- Group after group in the whole text, what was put in before included. -/
def substituteFrom (i : Nat) : Captures → Text → Text
  | [], path => path
  | none :: groups, path => substituteFrom (i + 1) groups path
  | some m :: groups, path => substituteFrom (i + 1) groups (replace (reference i) m path)

/-- The new path of a rule that matched. -/
def substitute (captures : Captures) (target : Text) : Text :=
  replace contextPath [] (substituteFrom 1 captures.tail target)

/-- The variables of the loop; `stopped` is its `break`. -/
structure Progress where
  currentPath : Text
  lastResult : Option RewriteResult := none
  status : Option Nat := none
  stopped : Bool := false

/-- One turn of the loop over the rules. -/
def tryRule (s : Progress) (rule : RewriteRule π κ) : Progress :=
  if s.stopped || !rule.enabled || !conditionsPass E rule.conditions s.currentPath then s else
  match E.captures rule.pattern s.currentPath with
  | none => s
  | some captures =>
    let (path, rewriteType) := match rule.target with
      | some target => (substitute captures target, rule.toType)
      | none => (s.currentPath, .forward)
    ⟨path, some ⟨path, rewriteType, none⟩, rule.setStatus <|> s.status, rule.toLast⟩

/-- All rules in order, each on the path that the ones before it left. -/
def applyRewriteRules (rules : List (RewriteRule π κ)) (urlPath : Text) : Option RewriteResult :=
  let s := rules.foldl (tryRule E) { currentPath := urlPath }
  s.lastResult.map fun r => { r with status := s.status }

/-- The number that the digits of a reference stand for. -/
def digitsVal (ds : Text) : Nat := ds.foldl (fun n c => 10 * n + (c.toNat - 48)) 0

/-! ## All at once -/

/-- A target is made of characters and of references, a `$` with all the digits behind it. -/
inductive Piece where
  | char (c : Char)
  | ref (digits : Text)
deriving DecidableEq

def piecesFrom : Nat → Text → List Piece
  | _, [] => []
  | skip + 1, _ :: s => piecesFrom skip s
  | 0, c :: s =>
    let ds := s.takeWhile Char.isDigit
    if c = '$' ∧ ds ≠ [] then .ref ds :: piecesFrom ds.length s else .char c :: piecesFrom 0 s

/-- Digits are read maximally. -/
def pieces (target : Text) : List Piece := piecesFrom 0 target

/-- The text of a group; a group that took no part has none. -/
def groupText (captures : Captures) (n : Nat) : Text := captures[n]?.join.getD []

/-- A group that took no part has no text. -/
def Piece.value (captures : Captures) : Piece → Text
  | .char c => [c]
  | .ref ds => groupText captures (digitsVal ds)

/-- The target with all references replaced at once. -/
def expand (captures : Captures) (target : Text) : Text :=
  (pieces target).flatMap (Piece.value captures)

/-- No `$` of the text can begin a reference: behind each there is something, and not a digit. -/
def inert : Text → Bool
  | [] => true
  | c :: s => (c ≠ '$' || s.head?.any fun d => !d.isDigit) && inert s

/-- The reference is to a group that took part, with an inert text, and begins with the number of no
other such group. -/
def Direct (captures : Captures) (ds : Text) : Prop :=
  ∃ n m, 1 ≤ n ∧ ds = Nat.toDigits 10 n ∧ captures[n]? = some (some m) ∧ inert m = true ∧
    ∀ i m', 1 ≤ i → captures[i]? = some (some m') → Nat.toDigits 10 i <+: ds → i = n

/-- Every reference is direct, and none stands right behind a `$`. -/
structure AllDirect (captures : Captures) (target : Text) : Prop where
  direct : ∀ ds, .ref ds ∈ pieces target → Direct captures ds
  apart : (pieces target).IsChain fun p q => p = .char '$' → ∀ ds, q ≠ .ref ds

/-! ## One after the other -/

/-- A piece before the replacement of group `i`. -/
def Piece.stage (captures : Captures) (i : Nat) : Piece → Text
  | .char c => [c]
  | .ref ds => if digitsVal ds < i then groupText captures (digitsVal ds) else '$' :: ds

lemma digitsVal_toDigits (n : Nat) : digitsVal (Nat.toDigits 10 n) = n :=
  Nat.ofDigitChars_toDigits (by decide) (by decide)

lemma isDigit_of_mem_toDigits {c : Char} {n : Nat} (h : c ∈ Nat.toDigits 10 n) : c.isDigit = true :=
  Nat.isDigit_of_mem_toDigits (by decide) (by decide) h

lemma digitsVal_le_append (ds e : Text) : digitsVal ds ≤ digitsVal (ds ++ e) := by
  have hfold : ∀ (e : Text) (a : Nat), a ≤ e.foldl (fun n c => 10 * n + (c.toNat - 48)) a := by
    intro e
    induction e with
    | nil => exact fun a => Nat.le_refl a
    | cons c e ih =>
      intro a
      have hstep : a ≤ 10 * a + (c.toNat - 48) := by omega
      exact Nat.le_trans hstep (ih _)
  rw [digitsVal, digitsVal, foldl_append]
  exact hfold e _

section

variable {pat text u v : Text} {d : Char}

lemma replace_pass {c : Char} {s : Text} (h : ¬ pat <+: c :: s) :
    replace pat text (c :: s) = c :: replace pat text s := by
  rw [replace, replaceFrom, if_neg h]
  rfl

lemma replace_append (hu : d ∉ u) (v : Text) :
    replace (d :: pat) text (u ++ v) = u ++ replace (d :: pat) text v := by
  induction u with
  | nil => rfl
  | cons c u ih =>
    obtain ⟨hc, hu⟩ := not_or.1 (mt mem_cons.2 hu)
    rw [cons_append, replace_pass fun h => hc (cons_prefix_cons.1 h).1, ih hu]
    rfl

lemma replaceFrom_skip (s v : Text) :
    replaceFrom pat text s.length (s ++ v) = replace pat text v := by
  induction s with
  | nil => rfl
  | cons c s ih => exact ih

lemma replace_own (c : Char) (pat m v : Text) : replace (c :: pat) m (c :: (pat ++ v)) = m ++
    replace (c :: pat) m v := by
  rw [replace, replaceFrom, if_pos ⟨v, rfl⟩, length_cons, Nat.add_sub_cancel, replaceFrom_skip]

lemma replace_inert {ds : Text} (hd : d.isDigit = true) : ∀ {m : Text}, inert m = true →
    replace ('$' :: d :: ds) text (m ++ v) = m ++ replace ('$' :: d :: ds) text v
  | [], _ => rfl
  | c :: m, h => by
    obtain ⟨hc, hrest⟩ := Bool.and_eq_true_iff.1 h
    have hne : ¬ '$' :: d :: ds <+: c :: (m ++ v) := by
      intro hpre
      obtain ⟨rfl, hdigit⟩ := cons_prefix_cons.1 hpre
      cases m with
      | nil => simp at hc
      | cons c' m =>
        have hdc : d = c' := (cons_prefix_cons.1 hdigit).1
        simp [← hdc, hd] at hc
    rw [cons_append, replace_pass hne, replace_inert hd hrest]
    rfl

lemma replace_of_absent {s : Text} (h : ¬ pat <:+: s) : replace pat text s = s := by
  induction s with
  | nil => rfl
  | cons c s ih => rw [replace_pass fun hpre => h hpre.isInfix, ih fun hin => h (infix_cons hin)]

end

variable {captures : Captures} {ps : List Piece} {i : Nat}

lemma flatMap_source (skip : Nat) (s : Text)
    (hpos : ∀ ds, .ref ds ∈ piecesFrom skip s → 1 ≤ digitsVal ds) :
    (piecesFrom skip s).flatMap (Piece.stage captures 1) = s.drop skip := by
  fun_induction piecesFrom skip s with
  | case1 skip => simp
  | case2 skip c s ih => exact ih hpos
  | case3 c s ds h ih =>
    have hown : ¬ digitsVal ds < 1 := Nat.not_lt.2 (hpos ds mem_cons_self)
    rw [flatMap_cons, ih fun ds' hds => hpos ds' (mem_cons_of_mem _ hds), Piece.stage, if_neg hown,
      h.1]
    exact congrArg ('$' :: ·) <| prefix_iff_eq_append.1 <| takeWhile_prefix _
  | case4 c s ds h ih =>
    rw [flatMap_cons, ih fun ds' hds => hpos ds' (mem_cons_of_mem _ hds)]
    rfl

/-- What stands behind a `$` that begins no reference: a character, and not a digit. -/
def Quiet (p q : Piece) : Prop := p = .char '$' → ∃ c, q = .char c ∧ c.isDigit = false

lemma quiet_piecesFrom (skip : Nat) (s : Text)
    (h : (piecesFrom skip s).IsChain fun p q => p = .char '$' → ∀ ds, q ≠ .ref ds) :
    (piecesFrom skip s).IsChain Quiet := by
  fun_induction piecesFrom skip s with
  | case1 skip => exact .nil
  | case2 skip c s ih => exact ih h
  | case3 c s ds _ ih => exact isChain_cons.2 ⟨fun q _ hp => (nomatch hp), ih (isChain_cons.1 h).2⟩
  | case4 c s ds hno ih =>
    refine isChain_cons.2 ⟨fun q hq hp => ?_, ih (isChain_cons.1 h).2⟩
    have happart := (isChain_cons.1 h).1 q hq hp
    cases q with
    | ref ds => exact absurd rfl (happart ds)
    | char d =>
      refine ⟨d, rfl, ?_⟩
      have hnone : s.takeWhile Char.isDigit = [] :=
        not_not.1 fun hne => hno ⟨Piece.char.inj hp, hne⟩
      cases s with
      | nil => cases hq
      | cons d' s =>
        have hd : d'.isDigit = false := by
          cases hd : d'.isDigit with
          | false => rfl
          | true =>
            rw [takeWhile_cons_of_pos hd] at hnone
            cases hnone
        rw [piecesFrom] at hq
        split at hq
        · cases Option.some.inj hq
        · obtain rfl := Piece.char.inj (Option.some.inj hq)
          exact hd

/-- **One replacement**: the references to the group, and nothing else. -/
lemma replace_stage {m : Text} (hpos : 1 ≤ i) (hm : captures[i]? = some (some m))
    (hdirect : ∀ ds, .ref ds ∈ ps → Direct captures ds) (hquiet : ps.IsChain Quiet) :
    replace (reference i) m (ps.flatMap (Piece.stage captures i)) =
    ps.flatMap (Piece.stage captures (i + 1)) := by
  obtain ⟨d, ds', hdigits⟩ := exists_cons_of_ne_nil (Nat.toDigits_ne_nil (n := i) (b := 10))
  have hd : d.isDigit = true := isDigit_of_mem_toDigits (n := i) (hdigits ▸ mem_cons_self)
  induction ps with
  | nil => rfl
  | cons p ps ih =>
    obtain ⟨hhead, htail⟩ := isChain_cons.1 hquiet
    have ih := ih (fun ds hds => hdirect ds (mem_cons_of_mem _ hds)) htail
    rw [flatMap_cons, flatMap_cons, ← ih]
    cases p with
    | char c =>
      refine replace_pass fun hpre => ?_
      rw [reference, hdigits] at hpre
      obtain ⟨rfl, hnext⟩ := cons_prefix_cons.1 hpre
      cases ps with
      | nil => exact absurd (prefix_nil.1 hnext) (cons_ne_nil _ _)
      | cons q ps =>
        obtain ⟨c, rfl, hc⟩ := hhead q rfl rfl
        rw [(cons_prefix_cons.1 hnext).1] at hd
        exact absurd (hd.symm.trans hc) (by decide)
    | ref ds =>
      obtain ⟨n, m', hn, rfl, hm', hinert, hown⟩ := hdirect ds mem_cons_self
      have htext : groupText captures n = m' := by rw [groupText, hm']; rfl
      rw [Piece.stage, Piece.stage, digitsVal_toDigits]
      rcases Nat.lt_trichotomy n i with hlt | rfl | hlt
      · rw [if_pos hlt, if_pos (by omega), htext, reference, hdigits, replace_inert hd hinert]
      · obtain rfl : m' = m := Option.some.inj (Option.some.inj (hm'.symm.trans hm))
        rw [if_neg (Nat.lt_irrefl n), if_pos (Nat.lt_succ_self n), htext, cons_append, reference,
          replace_own]
      · have hne :
            ¬ reference i <+: '$' ::
                (Nat.toDigits 10 n ++ ps.flatMap (Piece.stage captures i)) := by
          intro hpre
          have hpre := (cons_prefix_cons.1 hpre).2
          rcases prefix_or_prefix_of_prefix hpre (prefix_append _ _) with hshort | ⟨e, he⟩
          · exact absurd (hown i m hpos hm hshort) (Nat.ne_of_lt hlt)
          · -- a longer number is no smaller one
            have hle := digitsVal_le_append (Nat.toDigits 10 n) e
            rw [he, digitsVal_toDigits, digitsVal_toDigits] at hle
            omega
        have hdollar : '$' ∉ Nat.toDigits 10 n :=
          fun h => absurd (isDigit_of_mem_toDigits h) (by decide)
        rw [if_neg (by omega), if_neg (by omega), cons_append, replace_pass hne]
        exact congrArg ('$' :: ·) (replace_append hdollar _)

lemma substituteFrom_stage (hpos : 1 ≤ i) (hdirect : ∀ ds, .ref ds ∈ ps → Direct captures ds)
    (hquiet : ps.IsChain Quiet) {groups : Captures} (hgroups : captures.drop i = groups) :
    substituteFrom i groups (ps.flatMap (Piece.stage captures i)) =
      ps.flatMap (Piece.stage captures (i + groups.length)) := by
  induction groups generalizing i with
  | nil => rfl
  | cons g groups ih =>
    have hg : captures[i]? = some g := by
      have hdrop : (captures.drop i)[0]? = captures[i]? := getElem?_drop
      rw [← hdrop, hgroups]
      rfl
    have hrest : captures.drop (i + 1) = groups := by rw [← tail_drop, hgroups]; rfl
    have hnext : i + (g :: groups).length = i + 1 + groups.length := by rw [length_cons]; omega
    rw [hnext, ← ih (by omega) hrest]
    cases g with
    | some m => exact congrArg _ (replace_stage hpos hg hdirect hquiet)
    | none =>
      -- nothing refers to a group that took no part
      have hsame :
          ps.flatMap (Piece.stage captures i) = ps.flatMap (Piece.stage captures (i + 1)) := by
        refine flatMap_congr fun p hp => ?_
        cases p with
        | char c => rfl
        | ref ds =>
          obtain ⟨n, m, -, rfl, hm, -⟩ := hdirect ds hp
          have hne : n ≠ i := by
            rintro rfl
            rw [hg] at hm
            cases Option.some.inj hm
          rw [Piece.stage, Piece.stage, digitsVal_toDigits]
          by_cases hlt : n < i
          · rw [if_pos hlt, if_pos (by omega)]
          · rw [if_neg hlt, if_neg (by omega)]
      rw [substituteFrom, hsame]

lemma AllDirect.substituteFrom_eq {target : Text} (h : AllDirect captures target) :
    substituteFrom 1 captures.tail target = expand captures target := by
  have hsource : (pieces target).flatMap (Piece.stage captures 1) = target := by
    refine flatMap_source 0 target fun ds hds => ?_
    obtain ⟨n, m, hn, rfl, -⟩ := h.direct ds hds
    rw [digitsVal_toDigits]
    exact hn
  have hrun := substituteFrom_stage (Nat.le_refl 1) h.direct (quiet_piecesFrom 0 target h.apart)
    (drop_one (l := captures))
  rw [hsource] at hrun
  rw [hrun]
  refine flatMap_congr fun p hp => ?_
  cases p with
  | char c => rfl
  | ref ds =>
    obtain ⟨n, m, -, rfl, hm, -⟩ := h.direct ds hp
    have hlt : n < 1 + captures.tail.length := by
      have := (List.getElem?_eq_some_iff.1 hm).1
      rw [length_tail]
      omega
    rw [Piece.stage, digitsVal_toDigits, if_pos hlt, Piece.value, digitsVal_toDigits]

/-- A rule that matches every path, with these groups. -/
def rewrittenTo (captures : Captures) (target : Text) : Text :=
  (tryRule (⟨fun _ _ => some captures, fun _ _ => true⟩ : Engine Unit Unit) { currentPath := [] }
    ⟨true, (), some target, .forward, false, [], none⟩).currentPath

end RustCfml.Rewrite
