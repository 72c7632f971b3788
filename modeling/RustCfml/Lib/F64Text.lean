import RustCfml.Lib.Decimal
import RustCfml.Lib.F64

/-!
# Doubles and text

The grammar `str::parse::<f64>` accepts, and the digits `Display` prints.
-/

namespace F64

def isDigit (c : Char) : Bool := '0' ≤ c ∧ c ≤ '9'

def digitsVal (cs : List Char) : Nat := cs.foldl (fun n c => 10 * n + (c.toNat - 48)) 0

def splitSign : List Char → Bool × List Char
  | '-' :: cs => (true, cs)
  | '+' :: cs => (false, cs)
  | cs => (false, cs)

/-- `e` or `E`, an optional sign and at least one digit; nothing at all means exponent 0. -/
def parseExponent : List Char → Option Int
  | [] => some 0
  | c :: cs =>
    if c = 'e' ∨ c = 'E' then
      let (neg, ds) := splitSign cs
      if ds ≠ [] ∧ ds.all isDigit then
        some (if neg then -(digitsVal ds : Int) else digitsVal ds)
      else none
    else none

def parseDecimal (cs : List Char) : Option (Nat × Nat) :=
  let whole := cs.takeWhile isDigit
  let rest := cs.dropWhile isDigit
  let (frac, tail) := match rest with
    | '.' :: r => (r.takeWhile isDigit, r.dropWhile isDigit)
    | r => ([], r)
  if whole = [] ∧ frac = [] then none
  else do
    let e ← parseExponent tail
    let e := e - frac.length
    let n := digitsVal (whole ++ frac)
    pure (if 0 ≤ e then (n * 10 ^ e.toNat, 1) else (n, 10 ^ (-e).toNat))

def parse (cs : List Char) : Option F64 :=
  let (neg, body) := splitSign cs
  let word := body.map Char.toLower
  if word = ['i', 'n', 'f'] ∨ word = ['i', 'n', 'f', 'i', 'n', 'i', 't', 'y'] then
    some (withSign neg infBits)
  else if word = ['n', 'a', 'n'] then some (withSign neg nan.magnitude)
  else (parseDecimal body).map fun r => ofRatio neg r.1 r.2

/-- `n` decimal digits and a power of ten: the nearest such number at or below the ratio. -/
def floorDigits (num den : Nat) (e : Int) : Nat :=
  if 0 ≤ e then num / (den * 10 ^ e.toNat) else (num * 10 ^ (-e).toNat) / den

def rounds (magnitude d : Nat) (e : Int) : Bool :=
  (if 0 ≤ e then roundMagnitude (d * 10 ^ e.toNat) 1 else roundMagnitude d (10 ^ (-e).toNat))
    == magnitude

/-- Twice the distance of the ratio from `d * 10 ^ e` against half a unit: is the upper
    neighbour nearer? -/
def upperNearer (num den d : Nat) (e : Int) : Bool :=
  if 0 ≤ e then decide ((2 * d + 1) * 10 ^ e.toNat * den < 2 * num)
  else decide ((2 * d + 1) * den < 2 * num * 10 ^ (-e).toNat)

/-- The shortest digits that round back, from exponent `e` downwards. -/
def shortest (magnitude num den : Nat) : Nat → Int → Nat × Int
  | 0, e => (floorDigits num den e, e)
  | fuel + 1, e =>
    let d := floorDigits num den e
    let down := rounds magnitude d e
    let up := rounds magnitude (d + 1) e
    if down && up then (if upperNearer num den d e then d + 1 else d, e)
    else if down then (d, e)
    else if up then (d + 1, e)
    else shortest magnitude num den fuel (e - 1)

def plain (d : Nat) (e : Int) : List Char :=
  let ds := (Nat.toDigits 10 d)
  if 0 ≤ e then ds ++ List.replicate e.toNat '0'
  else
    let k := (-e).toNat
    let ds := List.replicate (k + 1 - ds.length) '0' ++ ds
    ds.take (ds.length - k) ++ '.' :: ds.drop (ds.length - k)

/-- The decimal exponent a value's first digit stands at, or one above it. -/
def topExponent (num den : Nat) : Int :=
  ((Nat.toDigits 10 num).length : Int) - (Nat.toDigits 10 den).length + 1

def display (x : F64) : List Char :=
  if x.isNaN then ['N', 'a', 'N']
  else
    let sign := if x.isNegative then ['-'] else []
    if x.isInfinite then sign ++ ['i', 'n', 'f']
    else if x.magnitude = 0 then sign ++ ['0']
    else
      let (num, den) := x.absRatio
      let (d, e) := shortest x.magnitude num den 400 (topExponent num den)
      sign ++ plain d e

lemma isDigit_of_mem_toDigits {c : Char} {n : Nat} (h : c ∈ Nat.toDigits 10 n) :
    isDigit c = true := by
  have hc := Decimal.isDigit_of_mem h
  simp only [Char.isDigit, Bool.and_eq_true, decide_eq_true_eq] at hc
  simp only [isDigit, decide_eq_true_eq]
  exact hc

lemma parseDecimal_toDigits (n : Nat) : parseDecimal (Nat.toDigits 10 n) = some (n, 1) := by
  have hall : ∀ c ∈ Nat.toDigits 10 n, isDigit c = true := fun c hc => isDigit_of_mem_toDigits hc
  have hwhole : (Nat.toDigits 10 n).takeWhile isDigit = Nat.toDigits 10 n :=
    List.takeWhile_eq_self_iff.2 hall
  have hrest : (Nat.toDigits 10 n).dropWhile isDigit = [] := List.dropWhile_eq_nil_iff.2 hall
  have hvalue : digitsVal (Nat.toDigits 10 n) = n :=
    Nat.ofDigitChars_toDigits (by decide) (by decide)
  simp [parseDecimal, hwhole, hrest, parseExponent, Nat.toDigits_ne_nil, hvalue]

lemma splitSign_toString (i : Int) :
    splitSign (toString i).toList = (decide (i < 0), Nat.toDigits 10 i.natAbs) := by
  cases i with
  | ofNat n =>
    show splitSign (Nat.repr n).toList = _
    rw [Nat.repr, String.toList_ofList]
    unfold splitSign
    split
    · next heq => exact absurd (Decimal.isDigit_of_mem (heq ▸ List.mem_cons_self)) (by decide)
    · next heq => exact absurd (Decimal.isDigit_of_mem (heq ▸ List.mem_cons_self)) (by decide)
    · simp
  | negSucc n =>
    show splitSign ("-" ++ Nat.repr (n + 1)).toList = _
    have htail :
      (Nat.repr (n + 1)).toList = Nat.toDigits 10 (n + 1) := by rw [Nat.repr, String.toList_ofList]
    rw [String.toList_append, htail]
    simp [splitSign]

/-- An integer in decimal is read as its nearest double. -/
lemma parse_toString (i : Int) : parse (toString i).toList = some (ofInt i) := by
  have hword : ∀ w : List Char, 'n' ∈ w → (Nat.toDigits 10 i.natAbs).map Char.toLower ≠ w := by
    rintro w hn rfl
    rw [Decimal.map_toLower_digits fun c hc => Decimal.isDigit_of_mem hc] at hn
    exact absurd (Decimal.isDigit_of_mem hn) (by decide)
  rw [parse, splitSign_toString]
  dsimp only
  rw [if_neg (not_or.2 ⟨hword _ (by decide), hword _ (by decide)⟩), if_neg (hword _ (by decide)),
    parseDecimal_toDigits]
  rfl

lemma notMem_plain {c : Char} (hdigit : isDigit c = false) (hpoint : c ≠ '.') (d : Nat) (e : Int) :
    c ∉ plain d e := by
  have hds : c ∉ Nat.toDigits 10 d :=
    fun h => by rw [isDigit_of_mem_toDigits h] at hdigit; cases hdigit
  have hzero : ∀ n, c ∉ List.replicate n '0' := by
    intro n h
    rw [(List.mem_replicate.1 h).2] at hdigit
    cases hdigit
  have hpad : ∀ n, c ∉ List.replicate n '0' ++ Nat.toDigits 10 d := fun n h =>
    (List.mem_append.1 h).elim (hzero n) hds
  rw [plain]
  split
  · exact fun h => (List.mem_append.1 h).elim hds (hzero _)
  · intro h
    rcases List.mem_append.1 h with h | h
    · exact hpad _ (List.mem_of_mem_take h)
    · rcases List.mem_cons.1 h with h | h
      · exact hpoint h
      · exact hpad _ (List.mem_of_mem_drop h)

lemma totalKey_inj {x y : F64} (h : x.totalKey = y.totalKey) : x = y := by
  have hlt : ∀ z : F64, z.bits.toNat < 2 ^ 64 := fun z => z.bits.toNat_lt
  have hbits : x.bits.toNat = y.bits.toNat := by
    have hx := hlt x
    have hy := hlt y
    simp only [totalKey, isNegative, magnitude, decide_eq_true_eq] at h
    split at h <;> split at h <;> omega
  cases x
  cases y
  exact congrArg F64.mk (UInt64.toNat_inj.1 hbits)

lemma totalCmp_eq_iff {x y : F64} : x.totalCmp y = .eq ↔ x = y := by
  rw [totalCmp, Int.compare_eq_eq]
  exact ⟨totalKey_inj, fun h => h ▸ rfl⟩

end F64
