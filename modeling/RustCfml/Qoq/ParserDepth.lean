import RustCfml.Qoq.SqlParser

/-!
# How deep a query is parsed

The nesting counter is taken by `parse_expr` and `parse_select_statement`. **So the recursion and
the tree are bounded by the nesting limit and by the longest chain of operators, not by the limit
alone.**
-/

namespace RustCfml.Qoq

open List
namespace Sql

/-! ## Nesting of a tree -/

/-- What it is for an expression and for a query to be within a number of levels. -/
structure Levels where
  expr : SqlTree → Prop
  query : Query → Prop

def exprOver (I : Levels) : SqlTree → Prop
  | .star _ | .column _ _ | .resolvedColumn _ _ _ | .literal _ | .param _ => True
  | .binary left _ right => I.expr left ∧ I.expr right
  | .unary _ e | .cast e _ | .isNull e _ => I.expr e
  | .function _ args _ => ∀ e ∈ args, I.expr e
  | .case operand whens elseExpr => (∀ e ∈ operand, I.expr e) ∧
      (∀ arm ∈ whens, I.expr arm.1 ∧ I.expr arm.2) ∧ ∀ e ∈ elseExpr, I.expr e
  | .inList e _ list => I.expr e ∧ ∀ x ∈ list, I.expr x
  | .inSubquery e _ q => I.expr e ∧ I.query q
  | .between e _ low high => I.expr e ∧ I.expr low ∧ I.expr high
  | .like e _ pattern escape _ => I.expr e ∧ I.expr pattern ∧ ∀ x ∈ escape, I.expr x
  | .scalarSubquery q => I.query q

def tableOver (I : Levels) : TableRef Query → Prop
  | .named _ _ => True
  | .derived q _ => I.query q

def joinOver (I : Levels) (j : JoinClause Query Unit) : Prop := tableOver I j.table ∧ ∀ e ∈ j.on,
    I.expr e

def bodyOver (I : Levels) (b : SelectBody Query Unit) : Prop :=
  (∀ c ∈ b.columns, I.expr c.expr) ∧ (∀ t ∈ b.fromTable, tableOver I t) ∧
    (∀ j ∈ b.joins, joinOver I j) ∧
    (∀ e ∈ b.whereClause, I.expr e) ∧ (∀ e ∈ b.groupBy, I.expr e) ∧ ∀ e ∈ b.having, I.expr e

def queryOver (I : Levels) : Query → Prop
  | .select s =>
    bodyOver I s.body ∧ (∀ u ∈ s.unions, bodyOver I u.select) ∧ ∀ o ∈ s.orderBy, I.expr o.expr

def within : Nat → Levels
  | 0 => ⟨fun _ => False, fun _ => False⟩
  | n + 1 => ⟨exprOver (within n), queryOver (within n)⟩

structure Levels.Le (I J : Levels) : Prop where
  expr : ∀ e, I.expr e → J.expr e
  query : ∀ q, I.query q → J.query q

section

variable {I J : Levels}

lemma exprOver_mono (h : I.Le J) (e : SqlTree) (he : exprOver I e) : exprOver J e := by
  cases e with
  | star | column | resolvedColumn | literal | param => trivial
  | binary left op right => exact ⟨h.expr _ he.1, h.expr _ he.2⟩
  | unary op e | cast e ty | isNull e negated => exact h.expr _ he
  | function name args distinct => exact fun x hx => h.expr _ (he x hx)
  | case operand whens elseExpr =>
    exact ⟨fun x hx => h.expr _ (he.1 x hx),
      fun arm harm => ⟨h.expr _ (he.2.1 arm harm).1, h.expr _ (he.2.1 arm harm).2⟩,
      fun x hx => h.expr _ (he.2.2 x hx)⟩
  | inList e negated list => exact ⟨h.expr _ he.1, fun x hx => h.expr _ (he.2 x hx)⟩
  | inSubquery e negated q => exact ⟨h.expr _ he.1, h.query _ he.2⟩
  | between e negated low high => exact ⟨h.expr _ he.1, h.expr _ he.2.1, h.expr _ he.2.2⟩
  | like e negated pattern escape compiled =>
    exact ⟨h.expr _ he.1, h.expr _ he.2.1, fun x hx => h.expr _ (he.2.2 x hx)⟩
  | scalarSubquery q => exact h.query _ he

lemma tableOver_mono (h : I.Le J) (t : TableRef Query) (ht : tableOver I t) : tableOver J t := by
  cases t with
  | named => trivial
  | derived q a => exact h.query _ ht

lemma bodyOver_mono (h : I.Le J) (b : SelectBody Query Unit) (hb : bodyOver I b) :
    bodyOver J b := by
  obtain ⟨hcols, hfrom, hjoins, hwhere, hgroup, hhaving⟩ := hb
  exact ⟨fun c hc => h.expr _ (hcols c hc), fun t ht => tableOver_mono h t (hfrom t ht),
    fun j hj => ⟨tableOver_mono h _ (hjoins j hj).1, fun e he => h.expr _ ((hjoins j hj).2 e he)⟩,
    fun e he => h.expr _ (hwhere e he), fun e he => h.expr _ (hgroup e he),
    fun e he => h.expr _ (hhaving e he)⟩

lemma queryOver_mono (h : I.Le J) (q : Query) (hq : queryOver I q) : queryOver J q := by
  obtain ⟨s⟩ := q
  exact ⟨bodyOver_mono h _ hq.1, fun u hu => bodyOver_mono h _ (hq.2.1 u hu),
    fun o ho => h.expr _ (hq.2.2 o ho)⟩

end

lemma within_succ (n : Nat) : (within n).Le (within (n + 1)) := by
  induction n with
  | zero => exact ⟨fun _ => False.elim, fun _ => False.elim⟩
  | succ n ih => exact ⟨exprOver_mono ih, queryOver_mono ih⟩

lemma within_le {m n : Nat} (h : m ≤ n) : (within m).Le (within n) := by
  induction h with
  | refl => exact ⟨fun _ => id, fun _ => id⟩
  | step _ ih => exact ⟨fun e he => (within_succ _).expr e (ih.expr e he),
      fun q hq => (within_succ _).query q (ih.query q hq)⟩

lemma expr_le {m n : Nat} {e : SqlTree} (h : m ≤ n) (he : (within m).expr e) : (within n).expr e :=
  (within_le h).expr e he

inductive Kind where
  | operator
  | opens
  | closes
  | separates
  | other
deriving DecidableEq

def Token.kind : Token → Kind
  | .or | .and | .concat | .plus | .minus | .pipe | .caret | .star | .slash | .mod | .amp =>
    .operator
  | .lParen | .case => .opens
  | .rParen | .end => .closes
  | .comma | .select | .where | .by | .having | .on | .when | .then | .else => .separates
  | _ => .other

/-- No more than `k` operators on one bracket level between two separators: `t` have been seen on
the current level, and `S` on those around it. -/
def scan (k : Nat) : Nat → List Nat → List Token → Bool
  | _, _, [] => true
  | t, S, tok :: tokens =>
    match tok.kind with
    | .operator => decide (t + 1 ≤ k) && scan k (t + 1) S tokens
    | .opens => scan k 0 (t :: S) tokens
    | .closes => scan k (S.headD 0) S.tail tokens
    | .separates => scan k 0 S tokens
    | .other => scan k t S tokens

def chainsWithin (k : Nat) (tokens : List Token) : Bool := scan k 0 [] tokens

/-! ## The parser beside the scan -/

abbrev ParserState.next (s : ParserState) : ParserState := { s with tokens := s.tokens.tail }

/-- What is known between two pieces: the nesting, the counters, and a bound on the tokens left. -/
structure At (k d t : Nat) (S : List Nat) (m : Nat) (s : ParserState) : Prop where
  depth : s.depth = d
  scanned : scan k t S s.tokens = true
  counted : t ≤ k
  left : s.tokens.length ≤ m

def Holds {α : Type} (post : α → ParserState → Prop) : Outcome α → Prop
  | .ok a s => post a s
  | .error _ => True
  | .overflow => False

abbrev Token.Mild (tok : Token) : Prop := tok ≠ .eof ∧ (tok.kind = .other ∨ tok.kind = .separates)

section

variable {α β : Type} {k d t m : Nat} {S : List Nat} {s : ParserState}

variable {mid : α → ParserState → Prop} {step : α → Parse (Option α)}

lemma holds_bind {p : Parse α} {f : α → Parse β} {post : β → ParserState → Prop}
    (hp : Holds mid (p s))
    (hf : ∀ a s', mid a s' → Holds post (f a s')) : Holds post ((p >>= f) s) := by
  change Holds post (Parse.bind p f s)
  unfold Parse.bind
  cases hs : p s with
  | ok a s' =>
    rw [hs] at hp
    exact hf a s' hp
  | error message => trivial
  | overflow =>
    rw [hs] at hp
    exact hp

variable {tok : Token} {post : α → ParserState → Prop}

lemma holds_imp {p : Outcome α} (hp : Holds mid p) (h : ∀ a s', mid a s' → post a s') :
    Holds post p := by
  cases p with
  | ok a s' => exact h a s' hp
  | error message => trivial
  | overflow => exact hp

lemma tokens_of_current (h : s.current = tok) (hne : tok ≠ .eof) :
    s.tokens = tok :: s.tokens.tail := by
  unfold ParserState.current at h
  cases hs : s.tokens with
  | nil =>
    rw [hs] at h
    exact absurd h.symm hne
  | cons x xs =>
    rw [hs] at h
    obtain rfl : x = tok := h
    rfl

theorem At.advance (h : At k d t S m s) (hc : s.current = tok) (hne : tok ≠ .eof) :
    ∃ m', m = m' + 1 ∧ match tok.kind with
      | .operator => At k d (t + 1) S m' s.next
      | .opens => At k d 0 (t :: S) m' s.next
      | .closes => (S.headD 0 ≤ k → At k d (S.headD 0) S.tail m' s.next)
      | .separates => At k d 0 S m' s.next
      | .other => At k d t S m' s.next := by
  obtain ⟨hdepth, hscan, hcount, hleft⟩ := h
  have htokens := tokens_of_current hc hne
  rw [htokens, length_cons] at hleft
  obtain ⟨m', rfl⟩ : ∃ m', m = m' + 1 := ⟨m - 1, by omega⟩
  have hleft : s.tokens.tail.length ≤ m' := by omega
  rw [htokens] at hscan
  unfold scan at hscan
  refine ⟨m', rfl, ?_⟩
  cases hkind : tok.kind with
  | operator =>
    rw [hkind] at hscan
    obtain ⟨hle, hscan⟩ := Bool.and_eq_true_iff.1 hscan
    exact ⟨hdepth, hscan, by simpa using hle, hleft⟩
  | opens =>
    rw [hkind] at hscan
    exact ⟨hdepth, hscan, Nat.zero_le _, hleft⟩
  | closes =>
    rw [hkind] at hscan
    exact fun hhead => ⟨hdepth, hscan, hhead, hleft⟩
  | separates =>
    rw [hkind] at hscan
    exact ⟨hdepth, hscan, Nat.zero_le _, hleft⟩
  | other =>
    rw [hkind] at hscan
    exact ⟨hdepth, hscan, hcount, hleft⟩

lemma At.weaken {m' : Nat} (h : At k d t S m s) (hm : m ≤ m') : At k d t S m' s :=
  ⟨h.depth, h.scanned, h.counted, Nat.le_trans h.left hm⟩

lemma holds_rounds {Inv : α → ParserState → Prop}
    (hstep : ∀ a s, Inv a s → Holds (fun r s' => match r with
      | none => post a s'
      | some a' => Inv a' s' ∧ s'.tokens.length < s.tokens.length) (step a s)) :
    ∀ (n : Nat) (a : α) (s : ParserState), Inv a s → s.tokens.length < n →
      Holds post (rounds step n a s)
  | 0, _, _, _, hn => absurd hn (Nat.not_lt_zero _)
  | n + 1, a, s, hinv, hn => by
    unfold rounds
    refine holds_bind (hstep a s hinv) ?_
    rintro (_ | a') s' hr
    · exact hr
    · exact holds_rounds hstep n a' s' hr.1 (by omega)

lemma holds_repeatRounds (Inv : α → ParserState → Prop)
    (hstep : ∀ a s, Inv a s → Holds (fun r s' => match r with
      | none => post a s'
      | some a' => Inv a' s' ∧ s'.tokens.length < s.tokens.length) (step a s))
    {a : α} (h : Inv a s) : Holds post (repeatRounds step a s) :=
  holds_rounds hstep _ a s h (Nat.lt_succ_self _)

lemma current_bind (f : Token → Parse β) (s : ParserState) : (current >>= f) s = f s.current s :=
  rfl

lemma advance_bind (f : Unit → Parse β) (s : ParserState) : (advance >>= f) s = f () s.next := rfl

lemma bind_ok {p : Parse α} {f : α → Parse β} {a : α} {s' : ParserState} (h : p s = .ok a s') :
    (p >>= f) s = f a s' := by
  change Parse.bind p f s = _
  rw [Parse.bind, h]

lemma eat_eq (h : s.current = tok) : eat tok s = .ok true s.next := by
  unfold eat
  rw [current_bind, if_pos h]
  rfl

lemma eat_ne (h : s.current ≠ tok) : eat tok s = .ok false s := by
  unfold eat
  rw [current_bind, if_neg h]
  rfl

lemma holds_eatBind {f : Bool → Parse α} (hno : Holds post (f false s))
    (hyes : s.current = tok → Holds post (f true s.next)) : Holds post ((eat tok >>= f) s) := by
  by_cases hc : s.current = tok
  · rw [bind_ok (eat_eq hc)]
    exact hyes hc
  · rw [bind_ok (eat_ne hc)]
    exact hno

lemma holds_eat (post : Bool → ParserState → Prop) (hno : post false s)
    (hyes : s.current = tok → post true s.next) : Holds post (eat tok s) := by
  by_cases hc : s.current = tok
  · rw [eat_eq hc]
    exact hyes hc
  · rw [eat_ne hc]
    exact hno

lemma holds_expect {post : Unit → ParserState → Prop}
    (hyes : s.current = tok → post () s.next) : Holds post (expect tok s) := by
  unfold expect
  rw [current_bind]
  by_cases hc : s.current = tok
  · rw [if_pos hc]
    exact hyes hc
  · rw [if_neg hc]
    trivial

lemma At.refresh (h : At k d t S m s) : At k d t S s.tokens.length s :=
  ⟨h.depth, h.scanned, h.counted, le_rfl⟩

section

variable (h : At k d t S m s) (hc : s.current = tok) (hne : tok ≠ .eof)
include h hc hne

lemma At.other (hk : tok.kind = .other) : At k d t S m s.next := by
  obtain ⟨m', rfl, hadv⟩ := h.advance hc hne
  rw [hk] at hadv
  exact hadv.weaken (Nat.le_succ m')

lemma At.separates (hk : tok.kind = .separates) : At k d 0 S m s.next := by
  obtain ⟨m', rfl, hadv⟩ := h.advance hc hne
  rw [hk] at hadv
  exact hadv.weaken (Nat.le_succ m')

lemma At.opens (hk : tok.kind = .opens) : At k d 0 (t :: S) m s.next := by
  obtain ⟨m', rfl, hadv⟩ := h.advance hc hne
  rw [hk] at hadv
  exact hadv.weaken (Nat.le_succ m')

lemma At.operator (hk : tok.kind = .operator) : ∃ m', m = m' + 1 ∧ At k d (t + 1) S m' s.next := by
  obtain ⟨m', rfl, hadv⟩ := h.advance hc hne
  rw [hk] at hadv
  exact ⟨m', rfl, hadv⟩

end

lemma At.closes {t' : Nat} (h : At k d t' (t :: S) m s) (ht : t ≤ k) (hc : s.current = tok)
    (hne : tok ≠ .eof) (hk : tok.kind = .closes) : At k d t S m s.next := by
  obtain ⟨m', rfl, hadv⟩ := h.advance hc hne
  rw [hk] at hadv
  exact (hadv ht).weaken (Nat.le_succ m')

lemma length_tail_lt (hc : s.current = tok) (hne : tok ≠ .eof) :
    s.tokens.tail.length < s.tokens.length := by
  rw [tokens_of_current hc hne]
  exact Nat.lt_succ_self _

end

/-! ## Specifications -/

/-- A piece inside an expression: the counter of its level goes up, and the tree is at most that
much deeper than `c`. -/
def ExprPost (k d t : Nat) (S : List Nat) (m c : Nat) (e : SqlTree) (s : ParserState) : Prop :=
  ∃ t', t ≤ t' ∧ At k d t' S m s ∧ (within (t' - t + c)).expr e

/-- `r` is how many signs may still come. -/
def ExprSpec (k d c r : Nat) (p : Parse SqlTree) : Prop :=
  ∀ t S m s, k - t ≤ r → At k d t S m s → Holds (ExprPost k d t S m c) (p s)

/-- A piece with separators of its own: only the levels around it are kept. -/
def ItemSpec {α : Type} (k d : Nat) (P : α → Prop) (p : Parse α) : Prop :=
  ∀ t S m s, At k d t S m s → Holds (fun a s' => (∃ t', At k d t' S m s') ∧ P a) (p s)

structure KnotsOk (k d B : Nat) (K : Knots) : Prop where
  expr : ItemSpec k d (within B).expr K.expr
  select : ItemSpec k d (fun q => (within B).query (.select q)) K.select

def KeepSpec {α : Type} (k d : Nat) (P : α → Prop) (p : Parse α) : Prop :=
  ∀ t S m s, At k d t S m s → Holds (fun a s' => At k d t S m s' ∧ P a) (p s)

/-- A piece inside a bracket, which it closes. -/
def OpenSpec {α : Type} (k d : Nat) (P : α → Prop) (p : Parse α) : Prop :=
  ∀ t t' S m s, t ≤ k → At k d t' (t :: S) m s → Holds (fun a s' => At k d t S m s' ∧ P a) (p s)

section

variable {α β : Type} {k d B c r t₀ t m : Nat} {S : List Nat} {s : ParserState} {left : SqlTree}
  {K : Knots} {P : α → Prop} {Q : β → Prop} {p : Parse α} {tok : Token}

section

variable {f : α → Parse β} {g : Unit → Parse β}

lemma ItemSpec.bind (hp : ItemSpec k d P p) (hf : ∀ a, P a → ItemSpec k d Q (f a)) :
    ItemSpec k d Q (p >>= f) := by
  intro t S m s hs
  refine holds_bind (hp t S m s hs) ?_
  rintro a s' ⟨⟨t', h'⟩, ha⟩
  exact hf a ha t' S m s' h'

lemma ItemSpec.bindOpen (hp : ItemSpec k d P p) (hf : ∀ a, P a → OpenSpec k d Q (f a)) :
    OpenSpec k d Q (p >>= f) := by
  intro t t' S m s ht hs
  refine holds_bind (hp t' (t :: S) m s hs) ?_
  rintro a s' ⟨⟨t'', h'⟩, ha⟩
  exact hf a ha t t'' S m s' ht h'

lemma KeepSpec.bind (hp : KeepSpec k d P p) (hf : ∀ a, P a → KeepSpec k d Q (f a)) :
    KeepSpec k d Q (p >>= f) := by
  intro t S m s hs
  refine holds_bind (hp t S m s hs) ?_
  rintro a s' ⟨h', ha⟩
  exact hf a ha t S m s' h'

lemma KeepSpec.item (hp : KeepSpec k d P p) : ItemSpec k d P p := by
  intro t S m s hs
  refine holds_imp (hp t S m s hs) ?_
  rintro a s' ⟨h', ha⟩
  exact ⟨⟨t, h'⟩, ha⟩

lemma keep_pure {a : α} (h : P a) : KeepSpec k d P (pure a) := fun _ _ _ _ hs => ⟨hs, h⟩

lemma item_pure {a : α} (h : P a) : ItemSpec k d P (pure a) := (keep_pure h).item

lemma keep_current : KeepSpec k d (fun _ => True) current := fun _ _ _ _ hs => ⟨hs, trivial⟩

lemma keep_eat (h : tok ≠ .eof ∧ tok.kind = .other) : KeepSpec k d (fun _ => True) (eat tok) := by
  intro t S m s hs
  exact holds_eat (fun _ s' => At k d t S m s' ∧ True) ⟨hs, trivial⟩ fun hc =>
    ⟨hs.other hc h.1 h.2, trivial⟩

lemma keep_expect (h : tok ≠ .eof ∧ tok.kind = .other) :
    KeepSpec k d (fun _ => True) (expect tok) := by
  intro t S m s hs
  exact holds_expect fun hc => ⟨hs.other hc h.1 h.2, trivial⟩

lemma At.mild (hs : At k d t S m s) (hc : s.current = tok) (h : tok.Mild) :
    ∃ t', At k d t' S m s.next := by
  obtain ⟨hne, hk | hk⟩ := h
  · exact ⟨t, hs.other hc hne hk⟩
  · exact ⟨0, hs.separates hc hne hk⟩

lemma item_eat (h : tok.Mild) : ItemSpec k d (fun _ => True) (eat tok) := by
  intro t S m s hs
  exact holds_eat (fun _ s' => (∃ t', At k d t' S m s') ∧ True) ⟨⟨t, hs⟩, trivial⟩
    fun hc => ⟨hs.mild hc h, trivial⟩

lemma item_expect (h : tok.Mild) : ItemSpec k d (fun _ => True) (expect tok) := by
  intro t S m s hs
  exact holds_expect fun hc => ⟨hs.mild hc h, trivial⟩

lemma keep_open (h : tok ≠ .eof ∧ tok.kind = .opens) (hg : OpenSpec k d Q (g ())) :
    KeepSpec k d Q (expect tok >>= g) := by
  intro t S m s hs
  have hopen : Holds (fun _ s' => At k d 0 (t :: S) m s') (expect tok s) :=
    holds_expect fun hc => hs.opens hc h.1 h.2
  exact holds_bind hopen fun _ s' h' => hg t 0 S m s' hs.counted h'

lemma open_close (h : tok ≠ .eof ∧ tok.kind = .closes) (hg : KeepSpec k d Q (g ())) :
    OpenSpec k d Q (expect tok >>= g) := by
  intro t t' S m s ht hs
  have hclose : Holds (fun _ s' => At k d t S m s') (expect tok s) :=
    holds_expect fun hc => hs.closes ht hc h.1 h.2
  exact holds_bind hclose fun _ s' h' => hg t S m s' h'

lemma keep_eatOpen {f : Bool → Parse β} (h : tok ≠ .eof ∧ tok.kind = .opens)
    (hno : KeepSpec k d Q (f false)) (hyes : OpenSpec k d Q (f true)) :
    KeepSpec k d Q (eat tok >>= f) := by
  intro t S m s hs
  exact holds_eatBind (hno t S m s hs) fun hc => hyes t 0 S m _ hs.counted (hs.opens hc h.1 h.2)

lemma item_rounds (h : tok.Mild)
    {body : α → Parse (Option α)}
    (hbody : ∀ a, P a → ItemSpec k d (fun r => ∃ a', r = some a' ∧ P a') (body a))
    {a : α} (ha : P a) : ItemSpec k d P (repeatRounds (fun a => do
      if ← eat tok then body a else return none) a) := by
  intro t S m s hs
  refine holds_repeatRounds (fun a s => (∃ t', At k d t' S m s) ∧ P a) ?_ ⟨⟨t, hs⟩, ha⟩
  rintro a s1 ⟨⟨t1, h1⟩, ha⟩
  refine holds_eatBind ⟨⟨t1, h1⟩, ha⟩ fun hc => ?_
  obtain ⟨t2, h2⟩ := h1.mild hc h
  refine holds_imp (hbody a ha t2 S _ _ h2.refresh) ?_
  rintro _ s3 ⟨⟨t3, h3⟩, a', rfl, ha'⟩
  exact ⟨⟨⟨t3, h3.weaken h2.left⟩, ha'⟩, Nat.lt_of_le_of_lt h3.left (length_tail_lt hc h.1)⟩

end

lemma item_concat {items : List α} {a : α} (hitems : ∀ x ∈ items, P x) (ha : P a) :
    ItemSpec k d (fun r => ∃ items', r = some items' ∧ ∀ x ∈ items', P x)
    (pure (some (items ++ [a]))) :=
  item_pure ⟨_, rfl, forall_mem_append.2 ⟨hitems, forall_mem_singleton.2 ha⟩⟩

lemma holds_commaList {item : Parse α} (hitem : ItemSpec k d P item) :
    ItemSpec k d (fun as => ∀ a ∈ as, P a) (commaList item) :=
  hitem.bind fun _ hfirst => item_rounds (by decide)
    (fun _ hall => hitem.bind fun _ hnext => item_concat hall hnext) (forall_mem_singleton.2 hfirst)

/-- **A chain of operators**: every round raises the counter and the tree by one. -/
theorem holds_chain {operand : Parse SqlTree} {op : Token → Option BinaryOp} (hc : 1 ≤ c)
    (hop : ∀ tok o, op tok = some o → tok.kind = .operator) (hoperand : ExprSpec k d c r operand) :
    ExprSpec k d c r (chain operand op) := by
  intro t S m s hr hs
  unfold chain
  refine holds_bind (hoperand t S m s hr hs) ?_
  intro first s1 hfirst
  refine holds_repeatRounds (ExprPost k d t S m c) ?_ hfirst
  rintro left s2 ⟨t2, ht2, h2, hleft⟩
  rw [current_bind]
  cases hcur : op s2.current with
  | none => exact ⟨t2, ht2, h2, hleft⟩
  | some o =>
    have hkind := hop _ _ hcur
    have hne : s2.current ≠ .eof := by
      intro heof
      rw [heof] at hkind
      cases hkind
    obtain ⟨m', hm', h3⟩ := h2.refresh.operator rfl hne hkind
    dsimp only
    rw [advance_bind]
    refine holds_bind (hoperand (t2 + 1) S m' _ (by omega) h3) ?_
    rintro right s4 ⟨t4, ht4, h4, hright⟩
    have hlen := h4.left
    have hm := h2.left
    refine ⟨⟨t4, by omega, h4.weaken (by omega), ?_⟩, by omega⟩
    obtain ⟨n, hn⟩ : ∃ n, t4 - t + c = n + 1 := ⟨t4 - t + c - 1, by omega⟩
    rw [hn]
    exact ⟨expr_le (by omega) hleft, expr_le (by omega) hright⟩

lemma keep_parseIdent : KeepSpec k d (fun _ => True) parseIdent := by
  intro t S m s h
  unfold parseIdent
  rw [current_bind]
  generalize hcur : s.current = tok
  split
  next name => exact ⟨h.other hcur (by simp) rfl, trivial⟩
  next => trivial

lemma keep_parseUint : KeepSpec k d (fun _ => True) parseUint := by
  intro t S m s h
  unfold parseUint
  rw [current_bind]
  generalize hcur : s.current = tok
  split
  next text =>
    cases parseUsize text with
    | some n => exact ⟨h.other hcur (by simp) rfl, trivial⟩
    | none => trivial
  next => trivial

lemma holds_parseConcat (hc : 1 ≤ c) (hunary : ExprSpec k d c r K.unary) :
    ExprSpec k d c r (parseConcat K) := by
  refine holds_chain hc ?_ (holds_chain hc ?_ (holds_chain hc ?_ hunary))
  all_goals
    intro tok o h
    cases tok <;> first | rfl | cases h

/-- The parts after a left operand that was read from counter `t₀`. -/
def PostfixPost (k d t₀ t : Nat) (S : List Nat) (m c : Nat) (e : SqlTree) (s : ParserState) :
    Prop :=
  ∃ t', t ≤ t' ∧ At k d t' S m s ∧ (within (t' - t₀ + c + 1)).expr e

section

variable (hc : 1 ≤ c) (hunary : ExprSpec k d c k K.unary) (ht : t₀ ≤ t) (hs : At k d t S m s)
  (hleft : (within (t - t₀ + c)).expr left) (negated : Bool)
include hc hunary ht hs hleft

lemma holds_parseBetween : Holds (PostfixPost k d t₀ t S m c) (parseBetween K left negated s) := by
  have hconcat := holds_parseConcat hc hunary
  unfold parseBetween
  refine holds_bind (keep_expect (by decide) _ _ _ _ hs) fun _ s1 h1 => ?_
  refine holds_bind (hconcat t S m s1 (by omega) h1.1) ?_
  rintro low s2 ⟨t2, ht2, h2, hlow⟩
  have hand : Holds (fun _ s' => At k d (t2 + 1) S m s') (expect .and s2) := by
    refine holds_expect fun hcur => ?_
    obtain ⟨m', rfl, h3⟩ := h2.operator hcur (by decide) rfl
    exact h3.weaken (Nat.le_succ m')
  refine holds_bind hand fun _ s3 h3 => ?_
  refine holds_bind (hconcat (t2 + 1) S m s3 (by omega) h3) ?_
  rintro high s4 ⟨t4, ht4, h4, hhigh⟩
  exact ⟨t4, by
    omega, h4, expr_le (by omega) hleft, expr_le (by omega) hlow, expr_le (by omega) hhigh⟩

lemma holds_parseLike : Holds (PostfixPost k d t₀ t S m c) (parseLike K left negated s) := by
  have hconcat := holds_parseConcat hc hunary
  unfold parseLike
  refine holds_bind (keep_expect (by decide) _ _ _ _ hs) fun _ s1 h1 => ?_
  refine holds_bind (hconcat t S m s1 (by omega) h1.1) ?_
  rintro pattern s2 ⟨t2, ht2, h2, hpattern⟩
  refine holds_eatBind ?_ fun hcur => ?_
  · exact ⟨t2, by omega, h2, expr_le (by omega) hleft, expr_le (by omega) hpattern,
      by simp⟩
  · refine holds_bind (hconcat t2 S m _ (by omega) (h2.other hcur (by decide) rfl)) ?_
    rintro escape s4 ⟨t4, ht4, h4, hescape⟩
    refine ⟨t4, by omega, h4, expr_le (by omega) hleft, expr_le (by omega) hpattern, ?_⟩
    intro x hx
    obtain rfl : escape = x := Option.some.inj hx
    exact expr_le (by omega) hescape

end

lemma holds_optional {clause : Parse α} (h : tok.Mild)
    (hclause : ItemSpec k d P clause) :
    ItemSpec k d (fun r => ∀ a ∈ r, P a) (optional tok clause) := by
  refine (item_eat h).bind fun eaten _ => ?_
  split
  · exact hclause.bind fun a ha => item_pure (by simpa using ha)
  · exact item_pure (by simp)

lemma keep_skipUint : KeepSpec k d (fun _ => True) skipUint := by
  intro t S m s h
  have huint := keep_parseUint t S m s h
  unfold skipUint
  cases hs : parseUint s with
  | ok n s' =>
    rw [hs] at huint
    exact huint
  | error message => exact ⟨h, trivial⟩
  | overflow =>
    rw [hs] at huint
    exact huint.elim

variable {L : Lowercase.CaseTables}

lemma keep_parseTypeName : KeepSpec k d (fun _ => True) (parseTypeName L) := by
  refine keep_parseIdent.bind fun name _ => keep_eatOpen (by decide) (keep_pure trivial)
    (keep_skipUint.item.bindOpen fun _ _ => (item_eat (by decide)).bindOpen fun comma _ => ?_)
  have hclose : OpenSpec k d (fun _ => True) (do
      expect .rParen
      return Lowercase.lowerString L name) := open_close (by decide) (keep_pure trivial)
  cases comma with
  | false => exact hclose
  | true => exact keep_skipUint.item.bindOpen fun _ _ => hclose

lemma holds_leaf {e : SqlTree} (hs : At k d t S m s) (hc : s.current = tok)
    (hne : tok ≠ .eof) (hk : tok.kind = .other) (he : exprOver (within B) e) :
    Holds (fun e s' => At k d t S m s' ∧ (within (B + 1)).expr e) (leaf e s) :=
    ⟨hs.other hc hne hk, he⟩

lemma keep_parseOptionalAlias : KeepSpec k d (fun _ => True) parseOptionalAlias := by
  refine (keep_eat (by decide)).bind fun eaten _ => ?_
  have hname : KeepSpec k d (fun _ => True) (do return some (← parseIdent)) :=
    keep_parseIdent.bind fun name _ => keep_pure trivial
  split
  · exact hname
  · refine keep_current.bind fun tok _ => ?_
    split
    · exact hname
    · exact keep_pure trivial

lemma keep_parseDotted (name : String) : KeepSpec k d (fun _ => True) (parseDotted name) := by
  intro t S m s h
  refine holds_repeatRounds (fun _ s => At k d t S m s ∧ True) ?_ ⟨h, trivial⟩
  rintro name s1 ⟨h1, -⟩
  refine holds_eatBind ⟨h1, trivial⟩ fun hc => ?_
  have h2 := h1.other hc (by decide) rfl
  refine holds_bind (keep_parseIdent _ _ _ _ h2.refresh) fun segment s3 h3 => ?_
  exact ⟨⟨h3.1.weaken h2.left, trivial⟩,
    Nat.lt_of_le_of_lt h3.1.left (length_tail_lt hc (by decide))⟩

lemma holds_byList {item : Parse α} (hitem : ItemSpec k d P item) :
    ItemSpec k d (fun as => ∀ a ∈ as, P a) (do
      expect .by
      commaList item) := (item_expect (by decide)).bind fun _ _ => holds_commaList hitem

lemma holds_parseLimit : ItemSpec k d (fun _ => True) parseLimit := by
  have huint : ItemSpec k d (fun _ => True) parseUint := keep_parseUint.item
  refine huint.bind fun first _ => (item_eat (by decide)).bind fun comma _ => ?_
  split
  · exact huint.bind fun count _ => item_pure trivial
  · refine (keep_eat (by decide)).item.bind fun offset _ => ?_
    split
    · exact huint.bind fun offset _ => item_pure trivial
    · exact item_pure trivial

lemma bodyOver_liftTop {I : Levels} {body : SelectBody Query Unit} (h : bodyOver I body)
    (limit : Option LimitClause) : bodyOver I (liftTop body limit).1 := by
  unfold liftTop
  split
  · exact h
  · exact h

lemma holds_nested (hp : d < maxNestingDepth → ItemSpec k (d + 1) P p) : ItemSpec k d P (do
      enterDepth
      let r ← p
      leaveDepth
      return r) := by
  intro t S m s hs
  have henter : Holds (fun _ s' => d < maxNestingDepth ∧ At k (d + 1) t S m s') (enterDepth s) := by
    unfold enterDepth
    by_cases hdeep : maxNestingDepth ≤ s.depth
    · rw [if_pos hdeep]
      trivial
    · rw [if_neg hdeep]
      have hd := hs.depth
      exact ⟨by omega, by rw [← hd], hs.scanned, hs.counted, hs.left⟩
  refine holds_bind henter ?_
  rintro _ s1 ⟨hd, h1⟩
  refine holds_bind (hp hd t S m s1 h1) ?_
  rintro a s2 ⟨⟨t2, h2⟩, ha⟩
  have hdepth := h2.depth
  exact ⟨⟨t2, ⟨by simp [hdepth], h2.scanned, h2.counted, h2.left⟩⟩, ha⟩

variable (hK : KnotsOk k d B K)
include hK

lemma keep_parseIn (hB : B ≤ c) (hleft : (within c).expr left) (negated : Bool) :
    KeepSpec k d (within (c + 1)).expr (parseIn K left negated) := by
  refine (keep_expect (by decide)).bind fun _ _ => keep_open (by decide)
    (keep_current.item.bindOpen fun tok _ => ?_)
  split
  · exact hK.select.bindOpen fun q hq =>
      open_close (by decide) (keep_pure ⟨hleft, (within_le hB).query _ hq⟩)
  · exact (holds_commaList hK.expr).bindOpen fun list hlist =>
      open_close (by decide) (keep_pure ⟨hleft, fun x hx => expr_le hB (hlist x hx)⟩)

lemma holds_parseIn (hB : B ≤ c) (hs : At k d t S m s) (hleft : (within (t - t₀ + c)).expr left)
    (negated : Bool) :
    Holds (PostfixPost k d t₀ t S m c) (parseIn K left negated s) := by
  refine holds_imp (keep_parseIn hK (Nat.le_add_left_of_le hB) hleft negated t S m s hs) ?_
  rintro e s' ⟨h', he⟩
  exact ⟨t, le_rfl, h', he⟩

section

variable (hc : 1 ≤ c) (hB : B ≤ c) (hunary : ExprSpec k d c k K.unary)
include hc hB hunary

lemma holds_parsePostfix (ht : t₀ ≤ t) (hs : At k d t S m s)
    (hleft : (within (t - t₀ + c)).expr left) :
    Holds (PostfixPost k d t₀ t S m c) (parsePostfix K left s) := by
  unfold parsePostfix
  rw [current_bind]
  generalize hcur : s.current = tok
  split
  next =>
    rw [advance_bind]
    have h1 := hs.other hcur (by decide) rfl
    refine holds_bind (keep_eat (by decide) _ _ _ _ h1) fun negated s2 h2 => ?_
    refine holds_bind (keep_expect (by decide) _ _ _ _ h2.1) fun _ s3 h3 => ?_
    exact ⟨t, le_rfl, h3.1, hleft⟩
  next => exact holds_parseIn hK hB hs hleft false
  next => exact holds_parseBetween hc hunary ht hs hleft false
  next => exact holds_parseLike hc hunary ht hs hleft false
  next =>
    rw [advance_bind]
    have h1 := hs.other hcur (by decide) rfl
    rw [current_bind]
    generalize ParserState.current _ = next
    split
    next => exact holds_parseIn hK hB h1 hleft true
    next => exact holds_parseBetween hc hunary ht h1 hleft true
    next => exact holds_parseLike hc hunary ht h1 hleft true
    next => trivial
  next => exact ⟨t, le_rfl, hs, expr_le (by omega) hleft⟩

lemma holds_parsePredicate : ExprSpec k d (c + 1) k (parsePredicate K) := by
  have hconcat := holds_parseConcat hc hunary
  intro t S m s hr hs
  unfold parsePredicate
  refine holds_bind (hconcat t S m s hr hs) ?_
  rintro left s1 ⟨t1, ht1, h1, hleft⟩
  rw [current_bind]
  cases hop : comparisonOp s1.current with
  | none =>
    refine holds_imp (holds_parsePostfix hK hc hB hunary ht1 h1 hleft) ?_
    rintro e s' ⟨t', ht', h', he⟩
    exact ⟨t', by omega, h', he⟩
  | some op =>
    have hne : s1.current ≠ .eof := by
      intro heof
      rw [heof] at hop
      cases hop
    have hkind : s1.current.kind = .other := by
      revert hop
      cases s1.current <;> first | (intro _; rfl) | (intro h; cases h)
    dsimp only
    rw [advance_bind]
    have h2 := h1.other rfl hne hkind
    refine holds_bind (hconcat t1 S m _ (by omega) h2) ?_
    rintro right s3 ⟨t3, ht3, h3, hright⟩
    have hn : t3 - t + (c + 1) = (t3 - t + c) + 1 := rfl
    refine ⟨t3, by omega, h3, ?_⟩
    rw [hn]
    exact ⟨expr_le (by omega) hleft, expr_le (by omega) hright⟩

lemma holds_parseNot : ExprSpec k d (c + 2) k (parseNot K) := by
  have hpred := holds_parsePredicate hK hc hB hunary
  intro t S m s hr hs
  unfold parseNot
  refine holds_eatBind ?_ fun hcur => ?_
  · refine holds_imp (hpred t S m s hr hs) ?_
    rintro e s' ⟨t', ht', h', he⟩
    exact ⟨t', ht', h', expr_le (by omega) he⟩
  · refine holds_bind (hpred t S m _ hr (hs.other hcur (by decide) rfl)) ?_
    rintro e s2 ⟨t2, ht2, h2, he⟩
    exact ⟨t2, ht2, h2, he⟩

lemma holds_parseOr : ExprSpec k d (c + 2) k (parseOr K) := by
  refine holds_chain (by omega) ?_ (holds_chain (by omega) ?_ (holds_parseNot hK hc hB hunary))
  all_goals
    intro tok o h
    cases tok <;> first | rfl | cases h

end

lemma holds_parseFunctionArgs : ItemSpec k d (fun r => ∀ e ∈ r.1, (within B).expr e)
    (parseFunctionArgs K) := by
  refine (keep_eat (by decide)).item.bind fun distinct _ => keep_current.item.bind fun tok _ => ?_
  split
  · exact item_pure (by simp)
  · exact (holds_commaList hK.expr).bind fun args hargs => item_pure hargs

lemma holds_parseCall (name : String) : OpenSpec k d (within (B + 1)).expr (parseCall K name) :=
  (holds_parseFunctionArgs hK).bindOpen fun _ hargs => open_close (by decide) (keep_pure hargs)

lemma holds_parseWhens :
    ItemSpec k d (fun whens => ∀ arm ∈ whens, (within B).expr arm.1 ∧ (within B).expr arm.2)
      (parseWhens K) :=
  item_rounds (by decide)
    (fun _ hwhens => hK.expr.bind fun _ hcond => (item_expect (by decide)).bind fun _ _ =>
    hK.expr.bind fun _ hvalue => item_concat hwhens ⟨hcond, hvalue⟩) (by simp)

lemma holds_parseOperand : ItemSpec k d (fun operand => ∀ e ∈ operand, (within B).expr e)
    (parseOperand K) := by
  refine keep_current.item.bind fun tok _ => ?_
  split
  · exact item_pure (by simp)
  · exact hK.expr.bind fun e he => item_pure (by simpa using he)

lemma holds_parseCase : KeepSpec k d (within (B + 1)).expr (parseCase K) := by
  refine keep_open (by decide) ((holds_parseOperand hK).bindOpen fun operand hop =>
    (holds_parseWhens hK).bindOpen fun whens hwhens => ?_)
  split
  · exact fun _ _ _ _ _ _ _ => trivial
  · exact (holds_optional (by decide) hK.expr).bindOpen fun elseExpr hels =>
      open_close (by decide) (keep_pure ⟨hop, hwhens, hels⟩)

lemma holds_parseCastWith {separator : Token} (h : tok ≠ .eof ∧ tok.kind = .other)
    (hsep : separator.Mild) :
    KeepSpec k d (within (B + 1)).expr (parseCastWith L K tok separator) :=
  (keep_expect h).bind fun _ _ => keep_open (by decide) (hK.expr.bindOpen fun _ he =>
    (item_expect hsep).bindOpen fun _ _ => keep_parseTypeName.item.bindOpen fun _ _ =>
      open_close (by decide) (keep_pure he))

lemma holds_parseParens (hs : At k d t S m s) (hc : s.current = .lParen) :
    Holds (fun e s' => At k d t S m s' ∧ (within (B + 1)).expr e) (parseParens K s) := by
  unfold parseParens
  rw [advance_bind]
  refine keep_current.item.bindOpen (fun tok _ => ?_)
    t 0 S m _ hs.counted (hs.opens hc (by decide) rfl)
  split
  · exact hK.select.bindOpen fun q hq => open_close (by decide) (keep_pure hq)
  · exact hK.expr.bindOpen fun e he =>
      open_close (by decide) (keep_pure (expr_le (Nat.le_succ B) he))

lemma holds_parseNamed {name : String} (hs : At k d t S m s) (hc : s.current = .identifier name) :
    Holds (fun e s' => (∃ t', t ≤ t' ∧ At k d t' S m s') ∧ (within (B + 1)).expr e)
    (parseNamed K name s) := by
  unfold parseNamed
  rw [advance_bind]
  have h1 := hs.other hc (by simp) rfl
  refine holds_eatBind ?_ fun hcur => ?_
  · refine holds_eatBind ⟨⟨t, le_rfl, h1⟩, trivial⟩ fun hcur => ?_
    have h2 := h1.other hcur (by decide) rfl
    refine holds_eatBind ?_ fun hcur => ?_
    · exact holds_bind (keep_parseIdent _ _ _ _ h2) fun col s3 h3 => ⟨⟨t, le_rfl, h3.1⟩, trivial⟩
    · obtain ⟨m', rfl, h3⟩ := h2.operator hcur (by decide) rfl
      exact ⟨⟨t + 1, Nat.le_succ t, h3.weaken (Nat.le_succ m')⟩, trivial⟩
  · have h2 := h1.opens hcur (by decide) rfl
    refine holds_imp (holds_parseCall hK name t 0 S m _ hs.counted h2) ?_
    rintro e s' ⟨h', he⟩
    exact ⟨⟨t, le_rfl, h'⟩, he⟩

lemma holds_parsePrimary : ExprSpec k d (B + 1) r (parsePrimary L K) := by
  intro t S m s _ hs
  -- what a primary gives, where its own level's counter is kept
  have hkeep : ∀ {p : Parse SqlTree} {s : ParserState},
      Holds (fun e s' => At k d t S m s' ∧ (within (B + 1)).expr e) (p s) →
        Holds (ExprPost k d t S m (B + 1)) (p s) := by
    intro p s h
    refine holds_imp h ?_
    rintro e s' ⟨h', he⟩
    exact ⟨t, le_rfl, h', expr_le (by omega) he⟩
  unfold parsePrimary
  rw [current_bind]
  generalize hcur : s.current = tok
  split
  next text =>
    rw [advance_bind]
    have h1 := hs.other hcur (by simp) rfl
    cases numberLiteral text with
    | ok v => exact ⟨t, le_rfl, h1, @expr_le _ _ (.literal v) (Nat.le_add_left (B + 1) _) trivial⟩
    | error message => trivial
  next text => exact hkeep (holds_leaf hs hcur (by simp) rfl trivial)
  iterate 3 next => exact hkeep (holds_leaf hs hcur (by simp) rfl trivial)
  next =>
    obtain ⟨m', rfl, h1⟩ := hs.operator hcur (by decide) rfl
    exact ⟨t + 1, Nat.le_succ t, h1.weaken (Nat.le_succ m'),
      (within_le (Nat.le_add_left (B + 1) _)).expr (.star none) trivial⟩
  next =>
    have h1 := hs.other hcur (by decide) rfl
    exact ⟨t, le_rfl, ⟨h1.depth, h1.scanned, h1.counted, h1.left⟩,
      (within_le (Nat.le_add_left (B + 1) _)).expr (.param (.positional s.paramIndex)) trivial⟩
  next name => exact hkeep (holds_leaf hs hcur (by simp) rfl trivial)
  next => exact hkeep (holds_parseCase hK t S m s hs)
  iterate 2 next => exact hkeep (holds_parseCastWith hK (by decide) (by decide) t S m s hs)
  next => exact hkeep (holds_parseParens hK hs hcur)
  iterate 2
    next =>
      rw [advance_bind]
      have h1 := hs.other hcur (by decide) rfl
      exact hkeep (keep_open (by decide) (holds_parseCall hK _) t S m _ h1)
  next name =>
    refine holds_imp (holds_parseNamed hK hs hcur) ?_
    rintro e s' ⟨⟨t', ht', h'⟩, he⟩
    exact ⟨t', ht', h', expr_le (by omega) he⟩
  next => trivial

/-- **A sign raises the counter**, so there are no more of them than the counter allows. -/
theorem holds_parseUnary (hunary : 0 < r → ExprSpec k d (B + 1) (r - 1) K.unary) :
    ExprSpec k d (B + 1) r (parseUnary L K) := by
  intro t S m s hr hs
  have hsign (op : UnaryOp) (hne : s.current ≠ .eof) (hk : s.current.kind = .operator) :
      Holds (ExprPost k d t S m (B + 1)) ((do
        let expr ← K.unary
        return (SqlExpr.unary op expr) : Parse SqlTree) s.next) := by
    obtain ⟨m', rfl, h1⟩ := hs.operator rfl hne hk
    have hcount := h1.counted
    refine holds_bind (hunary (by omega) (t + 1) S m' _ (by omega) h1) ?_
    rintro e s2 ⟨t2, ht2, h2, he⟩
    refine ⟨t2, by omega, h2.weaken (Nat.le_succ m'), ?_⟩
    obtain ⟨n, hn⟩ : ∃ n, t2 - t + (B + 1) = n + 1 := ⟨t2 - t + B, by omega⟩
    have hle : t2 - (t + 1) + (B + 1) ≤ n := by omega
    rw [hn]
    exact (within_le hle).expr _ he
  unfold parseUnary
  refine holds_eatBind ?_ fun hc => hsign .neg (by simp [hc]) (by rw [hc]; rfl)
  exact holds_eatBind (holds_parsePrimary hK t S m s hr hs) fun hc =>
    hsign .plus (by simp [hc]) (by rw [hc]; rfl)

lemma holds_parseSelectColumn :
    ItemSpec k d (fun c => (within B).expr c.expr) (parseSelectColumn K) :=
  hK.expr.bind fun _ he => keep_parseOptionalAlias.item.bind fun _ _ => item_pure he

lemma holds_parseTableRef : KeepSpec k d (tableOver (within B)) (parseTableRef K) := by
  refine keep_eatOpen (by decide) ?_ ?_
  · exact keep_parseIdent.bind fun first _ => (keep_parseDotted first).bind fun name _ =>
      keep_parseOptionalAlias.bind fun aliasName _ => keep_pure trivial
  · exact hK.select.bindOpen fun q hq => open_close (by decide)
      ((keep_eat (by decide)).bind fun _ _ => keep_parseIdent.bind fun aliasName _ => keep_pure hq)

lemma holds_parseJoinWithOn (joinType : JoinType) :
    ItemSpec k d (joinOver (within B)) (parseJoinWithOn K joinType) :=
  (holds_parseTableRef hK).item.bind fun _ htable => (item_expect (by decide)).bind fun _ _ =>
    hK.expr.bind fun _ he => item_pure ⟨htable, by simpa using he⟩

lemma holds_parseCross : ItemSpec k d (joinOver (within B)) (parseCross K) :=
  (holds_parseTableRef hK).item.bind fun _ htable => item_pure ⟨htable, by simp⟩

lemma holds_parseOuter (joinType : JoinType) (hs : At k d t S m s) (hc : s.current = tok)
    (hne : tok ≠ .eof)
    (hk : tok.kind = .other) : ∃ m', m = m' + 1 ∧
    Holds (fun j s' => (∃ t', At k d t' S m' s') ∧ joinOver (within B) j)
    (parseOuter K joinType s) := by
  obtain ⟨m', rfl, h1⟩ := hs.advance hc hne
  rw [hk] at h1
  refine ⟨m', rfl, ?_⟩
  unfold parseOuter
  rw [advance_bind]
  exact ((keep_eat (by decide)).item.bind fun _ _ => (keep_expect (by decide)).item.bind fun _ _ =>
    holds_parseJoinWithOn hK joinType) t S m' _ h1

def JoinPost (k d : Nat) (S : List Nat) (m B : Nat) (s : ParserState)
    (r : Option (JoinClause Query Unit)) (s' : ParserState) : Prop :=
  match r with
  | none => s' = s
  | some j => (∃ m' t', m = m' + 1 ∧ At k d t' S m' s') ∧ joinOver (within B) j

lemma holds_parseJoin (hs : At k d t S m s) : Holds (JoinPost k d S m B s) (parseJoin K s) := by
  have hjoin : ∀ {m' : Nat} {p : Parse (JoinClause Query Unit)} {s1 : ParserState}, m = m' + 1 →
      Holds (fun j s' => (∃ t', At k d t' S m' s') ∧ joinOver (within B) j) (p s1) →
      Holds (JoinPost k d S m B s) ((some <$> p) s1) := by
    intro m' p s1 hm h
    refine holds_bind (p := p) h ?_
    rintro j s' ⟨⟨t', h'⟩, hj⟩
    exact ⟨⟨m', t', hm, h'⟩, hj⟩
  have hinner : Holds (JoinPost k d S m B s) ((do
      let _ ← eat .inner
      expect .join
      some <$> parseJoinWithOn K .inner : Parse (Option (JoinClause Query Unit))) s) := by
    refine holds_bind (keep_eat (by decide) _ _ _ _ hs) fun _ s1 h1 => ?_
    have hexp : Holds (fun _ s' => ∃ m', m = m' + 1 ∧ At k d t S m' s') (expect .join s1) := by
      refine holds_expect fun hc => ?_
      obtain ⟨m', hm, h2⟩ := h1.1.advance hc (by decide)
      exact ⟨m', hm, h2⟩
    refine holds_bind hexp ?_
    rintro _ s2 ⟨m', hm, h2⟩
    exact hjoin hm (holds_parseJoinWithOn hK .inner t S m' s2 h2)
  unfold parseJoin
  rw [current_bind]
  generalize hcur : s.current = tok
  split
  next =>
    obtain ⟨m', rfl, h1⟩ := hs.advance hcur (by decide)
    rw [advance_bind]
    exact hjoin rfl (holds_parseCross hK 0 S m' _ h1)
  next =>
    obtain ⟨m', rfl, h1⟩ := hs.advance hcur (by decide)
    rw [advance_bind]
    refine holds_bind (keep_expect (by decide) _ _ _ _ h1) fun _ s2 h2 => ?_
    exact hjoin rfl (holds_parseCross hK t S m' s2 h2.1)
  next => exact hinner
  next => exact hinner
  iterate 3
    next =>
      obtain ⟨m', hm, h⟩ := holds_parseOuter hK _ hs hcur (by decide) rfl
      exact hjoin hm h
  next => rfl

lemma holds_parseFrom :
    ItemSpec k d (fun r => tableOver (within B) r.1 ∧ ∀ j ∈ r.2, joinOver (within B) j)
      (parseFrom K) := by
  intro t S m s hs
  unfold parseFrom
  refine holds_bind (holds_parseTableRef hK t S m s hs) ?_
  rintro seed s1 ⟨h1, hseed⟩
  have hjoins :
    Holds (fun joins s' => (∃ t', At k d t' S m s') ∧ ∀ j ∈ joins, joinOver (within B) j)
      (repeatRounds (fun joins => do
        match ← parseJoin K with
        | none => return none
        | some join => return some (joins ++ [join])) [] s1) := by
    refine holds_repeatRounds
      (fun joins s => (∃ t', At k d t' S m s) ∧ ∀ j ∈ joins, joinOver (within B) j) ?_
      ⟨⟨t, h1⟩, by simp⟩
    rintro joins s2 ⟨⟨t2, h2⟩, hall⟩
    refine holds_bind (holds_parseJoin hK h2.refresh) ?_
    rintro (_ | j) s3 h3
    · obtain rfl : s3 = s2 := h3
      exact ⟨⟨t2, h2⟩, hall⟩
    · obtain ⟨⟨m', t3, hm', h3⟩, hj⟩ := h3
      have hlen := h3.left
      have hm := h2.left
      exact ⟨⟨⟨t3, h3.weaken (by omega)⟩,
        forall_mem_append.2 ⟨hall, forall_mem_singleton.2 hj⟩⟩, by omega⟩
  refine holds_bind hjoins ?_
  rintro joins s2 ⟨h2, hall⟩
  exact ⟨h2, hseed, hall⟩

lemma holds_parseSelectCore : ItemSpec k d (bodyOver (within B)) (parseSelectCore K) := by
  refine (item_expect (by decide)).bind fun _ _ =>
    (keep_eat (by decide)).item.bind fun distinct _ =>
    (holds_optional (by decide) keep_parseUint.item).bind fun top _ =>
    (holds_commaList (holds_parseSelectColumn hK)).bind fun columns hcols =>
    (holds_optional (by decide) (holds_parseFrom hK)).bind fun tables htables =>
    (holds_optional (by decide) hK.expr).bind fun whereClause hwhere =>
    (holds_optional (by decide) (holds_byList hK.expr)).bind fun groupBy hgroup =>
    (holds_optional (by decide) hK.expr).bind fun having hhaving =>
    item_pure ⟨hcols, ?_, ?_, hwhere, ?_, hhaving⟩
  · intro table htable
    obtain ⟨r, hr, rfl⟩ := Option.map_eq_some_iff.1 htable
    exact (htables r hr).1
  · intro j hj
    cases tables with
    | none => simp at hj
    | some r => exact (htables r rfl).2 j hj
  · intro e he
    cases groupBy with
    | none => simp at he
    | some list => exact hgroup list rfl e he

lemma holds_parseOrderByItem :
    ItemSpec k d (fun o => (within B).expr o.expr) (parseOrderByItem K) := by
  refine hK.expr.bind fun e he => (keep_eat (by decide)).item.bind fun asc _ => ?_
  split
  · exact item_pure he
  · refine (keep_eat (by decide)).item.bind fun desc _ => ?_
    split <;> exact item_pure he

lemma holds_parseUnionArm : ItemSpec k d (fun u => bodyOver (within B) u.select)
    (parseUnionArm K) := by
  refine (keep_eat (by decide)).item.bind fun all _ => ?_
  split
  · exact (holds_parseSelectCore hK).bind fun body hbody => item_pure hbody
  · exact (keep_eat (by decide)).item.bind fun _ _ =>
      (holds_parseSelectCore hK).bind fun body hbody => item_pure hbody

lemma holds_parseUnions : ItemSpec k d (fun unions => ∀ u ∈ unions, bodyOver (within B) u.select)
    (parseUnions K) :=
  item_rounds (by decide) (fun _ hall => (holds_parseUnionArm hK).bind fun _ harm =>
    item_concat (P := fun u : Union Query Unit => bodyOver (within B) u.select) hall harm) (by simp)

lemma holds_parseSelectStatementInner :
    ItemSpec k d (fun q => (within (B + 1)).query (.select q)) (parseSelectStatementInner K) := by
  refine (holds_parseSelectCore hK).bind fun body hbody =>
    (holds_parseUnions hK).bind fun unions hunions =>
    (holds_optional (by decide) (holds_byList (holds_parseOrderByItem hK))).bind
      fun orderBy horder =>
    (holds_optional (by decide) holds_parseLimit).bind fun limit _ =>
    item_pure ⟨bodyOver_liftTop hbody limit, hunions, ?_⟩
  intro o ho
  cases orderBy with
  | none => simp at ho
  | some list => exact horder list rfl o ho

end

def treeBound (k left : Nat) : Nat := (k + 4) * (left + 1)

def stackBound (k left : Nat) : Nat := (k + 2) * (left + 1)

lemma unary_spec {L : Lowercase.CaseTables} {k d B n : Nat}
    (hK : ∀ j, n ≤ j → KnotsOk k d B (knots L j)) :
    ∀ r j, n + r + 1 ≤ j → ExprSpec k d (B + 1) r (knots L j).unary
  | 0, j, hj => by
    obtain ⟨i, rfl⟩ : ∃ i, j = i + 1 := ⟨j - 1, by omega⟩
    exact holds_parseUnary (hK i (by omega)) fun h => absurd h (Nat.lt_irrefl 0)
  | r + 1, j, hj => by
    obtain ⟨i, rfl⟩ : ∃ i, j = i + 1 := ⟨j - 1, by omega⟩
    exact holds_parseUnary (hK i (by omega)) fun _ => unary_spec hK r i (by omega)

lemma knotsOk_step {L : Lowercase.CaseTables} {k d B n : Nat}
    (hK : d < maxNestingDepth → ∀ j, n ≤ j → KnotsOk k (d + 1) B (knots L j)) {j : Nat}
    (hj : n + k + 2 ≤ j) : KnotsOk k d (k + B + 4) (knots L j) := by
  obtain ⟨i, rfl⟩ : ∃ i, j = i + 1 := ⟨j - 1, by omega⟩
  constructor
  · refine holds_nested fun hd => ?_
    have hunary := unary_spec (hK hd) k i (by omega)
    have hor := holds_parseOr (hK hd i (by omega)) (by omega) (Nat.le_succ B) hunary
    intro t S m s hs
    refine holds_imp (hor t S m s (by omega) hs) ?_
    rintro e s' ⟨t', -, h', he⟩
    have hcount := h'.counted
    exact ⟨⟨t', h'⟩, expr_le (by omega) he⟩
  · refine holds_nested fun hd => ?_
    intro t S m s hs
    refine holds_imp (holds_parseSelectStatementInner (hK hd i (by omega)) t S m s hs) ?_
    rintro q s' ⟨h', hq⟩
    exact ⟨h', (within_le (by omega)).query _ hq⟩

/-- **The bounds hold at every nesting.** The induction is on the levels that are left. -/
theorem knotsOk_all {L : Lowercase.CaseTables} {k : Nat} : ∀ (left d : Nat),
    d + left = maxNestingDepth →
    ∀ j, stackBound k left ≤ j → KnotsOk k d (treeBound k left) (knots L j)
  | 0, d, hd, j, hj => by
    have hstep : KnotsOk k d (k + 0 + 4) (knots L j) := by
      have hfull : ¬ d < maxNestingDepth := by omega
      refine @knotsOk_step L k d 0 0 (fun hlt => absurd hlt hfull) j ?_
      rw [stackBound] at hj
      omega
    simpa [treeBound] using hstep
  | left + 1, d, hd, j, hj => by
    have hsum : k + treeBound k left + 4 = treeBound k (left + 1) := by
      rw [treeBound, treeBound, Nat.mul_succ (k + 4) (left + 1)]
      omega
    rw [← hsum]
    refine knotsOk_step (fun _ => knotsOk_all left (d + 1) (by omega)) ?_
    rw [stackBound, Nat.mul_succ] at hj
    rw [stackBound]
    omega

/-! ## Queries -/

variable (T : SqlTables) (L : Lowercase.CaseTables)

/-- Within `c` activations the parser gives an error or a tree of at most `c` levels. -/
structure BoundedBy (c : Nat) (sql : String) : Prop where
  holds : Holds (fun q _ => (within c).query q) (parse T L c sql)

def parseBound (k : Nat) : Nat := treeBound k maxNestingDepth

lemma stackBound_le (k left : Nat) : stackBound k left ≤ treeBound k left :=
  Nat.mul_le_mul_right _ (by omega)

/-- **A text whose chains of operators are bounded is parsed within bounds.** -/
theorem boundedBy_of_chains {k : Nat} {sql : String} (h : chainsWithin k (lex T sql) = true) :
    BoundedBy T L (parseBound k) sql := by
  have hK := @knotsOk_all L k maxNestingDepth 0 (Nat.zero_add _) (parseBound k) (stackBound_le k _)
  have hstart : At k 0 0 [] (lex T sql).length ⟨lex T sql, 0, 0⟩ :=
    ⟨rfl, h, Nat.zero_le _, Nat.le_refl _⟩
  constructor
  unfold parse parseStatement
  rw [current_bind]
  split
  · trivial
  · refine holds_bind (hK.select 0 [] _ _ hstart) ?_
    rintro q s₁ ⟨-, hq⟩
    rw [current_bind]
    generalize s₁.current = tok
    split
    next => trivial
    next => exact hq
    next => trivial

def sumQuery : String := "SELECT (a + b) * c, d"

theorem boundedBy_of_chains_sum : chainsWithin 2 (lex .asciiLetters sumQuery) = true ∧
    BoundedBy .asciiLetters .asciiLetters (parseBound 2) sumQuery := by
  have h : chainsWithin 2 (lex .asciiLetters sumQuery) = true := by decide +kernel
  exact ⟨h, boundedBy_of_chains .asciiLetters .asciiLetters h⟩

/-- `SELECT - - … - 1`. -/
def signs (n : Nat) : List Char := (List.replicate n [' ', '-']).flatten ++ [' ', '1']

def signsQuery (n : Nat) : String := .ofList ('S' :: 'E' :: 'L' :: 'E' :: 'C' :: 'T' :: signs n)

lemma head_signs (n : Nat) : ∃ cs, signs n = ' ' :: cs := by
  cases n with
  | zero => exact ⟨['1'], rfl⟩
  | succ n => exact ⟨'-' :: signs n, rfl⟩

lemma lexFrom_signs : ∀ (n fuel : Nat), n + 2 ≤ fuel → lexFrom .asciiLetters fuel (signs n) =
    replicate n .minus ++ [.number "1"]
  | 0, fuel, h => by
    obtain ⟨f, rfl⟩ : ∃ f, fuel = f + 2 := ⟨fuel - 2, by omega⟩
    rfl
  | n + 1, fuel, h => by
    obtain ⟨f, rfl⟩ : ∃ f, fuel = f + 1 := ⟨fuel - 1, by omega⟩
    obtain ⟨cs, hcs⟩ := head_signs n
    have hcons : signs (n + 1) = ' ' :: '-' :: signs n := rfl
    have htrivia : skipTrivia (signs (n + 1)).length (signs (n + 1)) = '-' :: signs n := by
      rw [hcons, hcs]
      rfl
    have hminus : tokenFrom .asciiLetters '-' (signs n) = (.minus, signs n) := rfl
    rw [lexFrom, htrivia]
    dsimp only
    rw [hminus, lexFrom_signs n f (by omega)]
    rfl

def selectChars : List Char := ['S', 'E', 'L', 'E', 'C', 'T']

lemma identifierOrKeyword_select :
    identifierOrKeyword .asciiLetters (.ofList selectChars) = .select := by decide +kernel

lemma lex_signsQuery (n : Nat) :
    lex .asciiLetters (signsQuery n) = .select :: (replicate n .minus ++ [.number "1"]) := by
  have hlen : n + 2 ≤ (signs n).length + 6 := by
    simp [signs]
    omega
  have htok : tokenFrom .asciiLetters 'S' ('E' :: 'L' :: 'E' :: 'C' :: 'T' :: signs n) =
      (identifierOrKeyword .asciiLetters (.ofList selectChars), signs n) := by
    obtain ⟨cs, hcs⟩ := head_signs n
    rw [hcs]
    rfl
  have hfirst : lexFrom .asciiLetters ((signs n).length + 6 + 1)
      ('S' :: 'E' :: 'L' :: 'E' :: 'C' :: 'T' :: signs n) =
        .select :: lexFrom .asciiLetters ((signs n).length + 6) (signs n) := by
    have htrivia : skipTrivia ('S' :: 'E' :: 'L' :: 'E' :: 'C' :: 'T' :: signs n).length
        ('S' :: 'E' :: 'L' :: 'E' :: 'C' :: 'T' :: signs n) =
          'S' :: 'E' :: 'L' :: 'E' :: 'C' :: 'T' :: signs n := rfl
    rw [lexFrom, htrivia]
    dsimp only
    rw [htok, identifierOrKeyword_select]
  have htext : (signsQuery n).toList = 'S' :: 'E' :: 'L' :: 'E' :: 'C' :: 'T' :: signs n :=
    String.toList_ofList
  rw [lex, htext]
  exact hfirst.trans (by rw [lexFrom_signs n _ hlen])

section

variable {α β : Type} {s : ParserState}

lemma bind_overflow {p : Parse α} {f : α → Parse β} (h : p s = .overflow) :
    (p >>= f) s = .overflow := by
  change Parse.bind p f s = .overflow
  rw [Parse.bind, h]

end

lemma unary_overflow (L : Lowercase.CaseTables) : ∀ (n : Nat) (tokens : List Token) (p d : Nat),
    (knots L n).unary ⟨replicate n .minus ++ tokens, p, d⟩ = .overflow
  | 0, _, _, _ => rfl
  | n + 1, tokens, p, d => by
    change parseUnary L (knots L n) ⟨.minus :: (replicate n .minus ++ tokens), p, d⟩ = _
    unfold parseUnary
    rw [bind_ok (@eat_eq _ .minus rfl), if_pos rfl]
    exact bind_overflow (unary_overflow L n tokens p d)

lemma or_overflow {K : Knots} {s : ParserState} (hunary : K.unary s = .overflow)
    (hne : s.current ≠ .not) :
    parseOr K s = .overflow := by
  have hconcat : parseConcat K s = .overflow := bind_overflow (bind_overflow (bind_overflow hunary))
  have hnot : parseNot K s = .overflow := by
    unfold parseNot
    rw [bind_ok (eat_ne hne), if_neg (by decide)]
    exact bind_overflow hconcat
  exact bind_overflow (bind_overflow hnot)

lemma expr_overflow (L : Lowercase.CaseTables) (n : Nat) (tokens : List Token) (p d : Nat)
    (hd : d < maxNestingDepth) :
    (knots L (n + 1)).expr ⟨.minus :: (replicate n .minus ++ tokens), p, d⟩ = .overflow := by
  have hmove : Token.minus :: (replicate n .minus ++ tokens) =
      replicate n .minus ++ (.minus :: tokens) := by
    rw [← cons_append, ← replicate_succ, replicate_succ', append_assoc]
    rfl
  have henter : enterDepth ⟨.minus :: (replicate n .minus ++ tokens), p, d⟩ =
      .ok () ⟨.minus :: (replicate n .minus ++ tokens), p, d + 1⟩ := if_neg (Nat.not_le.2 hd)
  have hunary := unary_overflow L n (.minus :: tokens) p (d + 1)
  change parseExpr (knots L n) _ = _
  unfold parseExpr
  rw [← hmove] at hunary
  rw [bind_ok henter]
  exact bind_overflow (or_overflow hunary fun h => Token.noConfusion h)

lemma select_overflow {L : Lowercase.CaseTables} {n : Nat} {tokens : List Token}
    (h : (knots L n).expr ⟨.minus :: tokens, 0, 1⟩ = .overflow) :
    (knots L (n + 1)).select ⟨.select :: .minus :: tokens, 0, 0⟩ = .overflow := by
  have henter : enterDepth ⟨.select :: .minus :: tokens, 0, 0⟩ =
      .ok () ⟨.select :: .minus :: tokens, 0, 1⟩ := rfl
  have hexpect : expect .select ⟨.select :: .minus :: tokens, 0, 1⟩ =
    .ok () ⟨.minus :: tokens, 0, 1⟩ := rfl
  have hdistinct : eat .distinct ⟨.minus :: tokens, 0, 1⟩ = .ok false ⟨.minus :: tokens, 0, 1⟩ :=
    eat_ne fun h => Token.noConfusion h
  have htop : optional .top parseUint ⟨.minus :: tokens, 0, 1⟩ =
    .ok none ⟨.minus :: tokens, 0, 1⟩ := rfl
  change parseSelectStatement (knots L n) _ = _
  unfold parseSelectStatement
  rw [bind_ok henter]
  refine bind_overflow (bind_overflow ?_)
  unfold parseSelectCore
  rw [bind_ok hexpect, bind_ok hdistinct, bind_ok htop]
  exact bind_overflow (bind_overflow (bind_overflow h))

lemma select_signs (L : Lowercase.CaseTables) (tokens : List Token) : ∀ c : Nat,
    (knots L c).select ⟨.select :: .minus :: (replicate c .minus ++ tokens), 0, 0⟩ = .overflow
  | 0 => rfl
  | 1 => select_overflow rfl
  | n + 2 => by
    have hmove : replicate (n + 2) Token.minus ++ tokens =
        replicate n .minus ++ (.minus :: .minus :: tokens) := by
      rw [replicate_add, append_assoc]
      rfl
    rw [hmove]
    exact select_overflow (expr_overflow L n _ 0 1 (by decide))

/-- **No number of activations and levels is enough for every query.** -/
theorem parsing_unbounded : ¬ ∃ c, ∀ sql, BoundedBy .asciiLetters .asciiLetters c sql := by
  rintro ⟨c, h⟩
  have hq := (h (signsQuery (c + 1))).holds
  have hselect := select_signs .asciiLetters [.number "1"] c
  have hparse : parse .asciiLetters .asciiLetters c (signsQuery (c + 1)) = .overflow := by
    rw [parse, lex_signsQuery, parseStatement, current_bind]
    exact bind_overflow hselect
  rw [hparse] at hq
  exact hq

end Sql
end RustCfml.Qoq
