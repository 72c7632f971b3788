import RustCfml.Lib.F64

/-!
# Arithmetic on binary64

The five operators compute the exact result of two finite doubles as a ratio and round it once;
the infinities and NaN have their own rows. The second half bounds what rounding can do from
below: **a ratio of at least `2 ^ i` rounds to a double of at least `2 ^ (i - 2)`**, which is
enough wherever a large exact result only has to stay large.
-/

namespace F64

/-! ## Operators -/

def neg (x : F64) : F64 := withSign (!x.isNegative) x.magnitude

def isZero (x : F64) : Bool := x.magnitude == 0

/-- The exact value of a finite double is `numerator / absRatio.2`. -/
def numerator (x : F64) : Int := if x.isNegative then -(x.absRatio.1 : Int) else x.absRatio.1

def ofSigned (num : Int) (den : Nat) (zeroNegative : Bool) : F64 :=
  if num = 0 then withSign zeroNegative 0 else ofRatio (decide (num < 0)) num.natAbs den

def add (x y : F64) : F64 :=
  if x.isNaN || y.isNaN then nan
  else if x.isInfinite then (if y.isInfinite && x.isNegative != y.isNegative then nan else x)
  else if y.isInfinite then y
  else ofSigned (x.numerator * y.absRatio.2 + y.numerator * x.absRatio.2)
    (x.absRatio.2 * y.absRatio.2) (x.isNegative && y.isNegative)

def sub (x y : F64) : F64 := add x y.neg

def mul (x y : F64) : F64 :=
  let sign := x.isNegative != y.isNegative
  if x.isNaN || y.isNaN then nan
  else if x.isInfinite || y.isInfinite then
    (if x.isZero || y.isZero then nan else withSign sign infBits)
  else ofRatio sign (x.absRatio.1 * y.absRatio.1) (x.absRatio.2 * y.absRatio.2)

def div (x y : F64) : F64 :=
  let sign := x.isNegative != y.isNegative
  if x.isNaN || y.isNaN || (x.isInfinite && y.isInfinite) || (x.isZero && y.isZero) then nan
  else if x.isInfinite || y.isZero then withSign sign infBits
  else if y.isInfinite then withSign sign 0
  else ofRatio sign (x.absRatio.1 * y.absRatio.2) (x.absRatio.2 * y.absRatio.1)

/-- `x % y`: the sign of `x`, no rounding. -/
def rem (x y : F64) : F64 :=
  if x.isNaN || y.isNaN || x.isInfinite || y.isZero then nan
  else if y.isInfinite then x
  else ofRatio x.isNegative ((x.absRatio.1 * y.absRatio.2) % (y.absRatio.1 * x.absRatio.2))
    (x.absRatio.2 * y.absRatio.2)

def toI64 (x : F64) : Int64 :=
  if x.isNaN then 0
  else if x.isFinite && decide (-2 ^ 63 ≤ x.truncInt) && decide (x.truncInt < 2 ^ 63) then
    Int64.ofInt x.truncInt
  else if x.isNegative then Int64.minValue else Int64.maxValue

section

variable {negative : Bool} {m : Nat}

lemma toNat_withSign (h : m < 2 ^ 63) :
    (withSign negative m).bits.toNat = if negative then 2 ^ 63 + m else m := by
  rw [withSign, ofBitsNat, UInt64.toNat_ofNat']
  apply Nat.mod_eq_of_lt
  split <;> omega

lemma magnitude_withSign (h : m < 2 ^ 63) : (withSign negative m).magnitude = m := by
  rw [magnitude, toNat_withSign h]
  split <;> omega

lemma isNegative_withSign (h : m < 2 ^ 63) : (withSign negative m).isNegative = negative := by
  rw [isNegative, toNat_withSign h]
  cases negative with
  | false => simp; omega
  | true => simp

end

lemma roundMagnitude_lt (num den : Nat) : roundMagnitude num den < 2 ^ 63 := by
  have hinf : infBits < 2 ^ 63 := by decide
  rw [roundMagnitude]
  split
  · omega
  · exact Nat.lt_of_le_of_lt (Nat.min_le_right _ _) hinf

lemma magnitude_ofRatio (negative : Bool) (num den : Nat) :
    (ofRatio negative num den).magnitude = roundMagnitude num den :=
  magnitude_withSign (roundMagnitude_lt num den)

lemma isNegative_ofInt (i : Int) : (ofInt i).isNegative = decide (i < 0) :=
  isNegative_withSign (roundMagnitude_lt _ _)

variable {i : Int} {k den n : Nat} {x : F64}

lemma floorLog2_ge {num i : Nat} (hden : 0 < den) (h : 2 ^ i * den ≤ num) :
    (i : Int) - 1 ≤ floorLog2 num den := by
  have hpow : 2 ^ (i + Nat.log2 den) ≤ num := by
    rw [Nat.pow_add]
    exact Nat.le_trans (Nat.mul_le_mul_left _ (Nat.log2_self_le (by omega))) h
  have hnum : num ≠ 0 := by
    have := Nat.two_pow_pos (i + Nat.log2 den)
    omega
  have hlog := (Nat.le_log2 hnum).2 hpow
  unfold floorLog2
  dsimp only
  split <;> split <;> omega

lemma roundMagnitude_ge {num i : Nat} (hden : 0 < den) (h : 2 ^ i * den ≤ num)
    (hi : i ≤ 1024) : (i + 1021) * 2 ^ 52 ≤ roundMagnitude num den := by
  have hlog := floorLog2_ge hden h
  have hnum : num ≠ 0 := by
    have := Nat.mul_pos (Nat.two_pow_pos i) hden
    omega
  rw [roundMagnitude, if_neg hnum]
  dsimp only
  generalize (if 0 ≤ max (floorLog2 num den) (-1022) - 52 then _ else _) = m
  have hexp : i + 1021 ≤ (max (floorLog2 num den) (-1022) + 1022).toNat := by omega
  have hinf : (i + 1021) * 2 ^ 52 ≤ 2047 * 2 ^ 52 := Nat.mul_le_mul_right (2 ^ 52) (by omega)
  refine Nat.le_min.2 ⟨?_, hinf⟩
  exact Nat.le_trans (Nat.mul_le_mul_right (2 ^ 52) hexp) (Nat.le_add_right _ _)

lemma absRatio_ge {i : Nat} (h : (i + 1021) * 2 ^ 52 ≤ x.magnitude) :
    2 ^ i * x.absRatio.2 ≤ 4 * x.absRatio.1 := by
  have hexp : i + 1021 ≤ x.exponentField := (Nat.le_div_iff_mul_le (by decide)).2 h
  rw [absRatio, scaled, if_neg (by omega)]
  dsimp only
  generalize hE : x.exponentField = E at hexp
  split
  · next hpos =>
    -- an integer: the power of two is at most four times the lowest one with this exponent
    have hlow : 2 ^ i ≤ 2 ^ (54 + ((E : Int) - 1075).toNat) :=
      Nat.pow_le_pow_right (by decide) (by omega)
    rw [Nat.pow_add] at hlow
    have hsig : 2 ^ 52 * 2 ^ ((E : Int) - 1075).toNat ≤
        (2 ^ 52 + x.fraction) * 2 ^ ((E : Int) - 1075).toNat :=
      Nat.mul_le_mul_right _ (Nat.le_add_right _ _)
    omega
  · next hneg =>
    have hlow : 2 ^ (i + (-((E : Int) - 1075)).toNat) ≤ 2 ^ 54 :=
      Nat.pow_le_pow_right (by decide) (by omega)
    rw [Nat.pow_add] at hlow
    dsimp only
    omega

lemma absLt_eq_false {i : Nat} (h : (i + 1021) * 2 ^ 52 ≤ x.magnitude) (hn : 4 * n ≤ 2 ^ i) :
    x.absLt n = false := by
  have hratio := absRatio_ge h
  have hmul : 4 * n * x.absRatio.2 ≤ 2 ^ i * x.absRatio.2 := Nat.mul_le_mul_right _ hn
  have hlt : ¬x.absRatio.1 < n * x.absRatio.2 := by
    rw [Nat.mul_assoc] at hmul
    omega
  simp [absLt, hlt]

lemma absRatio_snd_pos (x : F64) : 0 < x.absRatio.2 := by
  unfold absRatio
  dsimp only
  split
  · exact Nat.one_pos
  · exact Nat.two_pow_pos _

/-! ## Doubles of integers -/

/-- The integers a 64-bit operand or its negation can be. -/
def Wide (i : Int) : Prop := i.natAbs ≤ 2 ^ 63

lemma floorLog2_one (hn : n ≠ 0) : floorLog2 n 1 = Nat.log2 n := by
  have hself := Nat.log2_self_le hn
  simp [floorLog2, show Nat.log2 1 = 0 by decide, hself]

lemma divHalfEven_le {d b : Nat} (hd : 0 < d) (h : n < b * d) : divHalfEven n d ≤ b := by
  have hq : n / d < b := (Nat.div_lt_iff_lt_mul hd).2 h
  unfold divHalfEven
  dsimp only
  split <;> omega

lemma isFinite_ofInt (hi : Wide i) : (ofInt i).isFinite = true := by
  rw [isFinite, ofInt, magnitude_ofRatio, decide_eq_true_eq, roundMagnitude]
  split
  · decide
  · next hn =>
    have hlog : Nat.log2 i.natAbs ≤ 63 := by
      by_contra hlt
      have hpow : 2 ^ 64 ≤ i.natAbs := (Nat.le_log2 hn).1 (by omega)
      unfold Wide at hi
      omega
    have hup : i.natAbs < 2 ^ (Nat.log2 i.natAbs + 1) := Nat.lt_log2_self
    rw [floorLog2_one hn]
    generalize Nat.log2 i.natAbs = e at hlog hup
    have hmax : max (e : Int) (-1022) = e := by omega
    simp only [hmax, Nat.one_mul]
    refine Nat.lt_of_le_of_lt (Nat.min_le_left _ _) ?_
    have hsig : (if 0 ≤ (e : Int) - 52 then divHalfEven i.natAbs (2 ^ ((e : Int) - 52).toNat)
        else divHalfEven (i.natAbs * 2 ^ (-((e : Int) - 52)).toNat) 1) ≤ 2 ^ 53 := by
      split
      · refine divHalfEven_le (Nat.two_pow_pos _) ?_
        rw [← Nat.pow_add]
        exact Nat.lt_of_lt_of_le hup (Nat.pow_le_pow_right (by decide) (by omega))
      · refine divHalfEven_le (by decide) ?_
        have hmul := Nat.mul_lt_mul_of_pos_right hup (Nat.two_pow_pos (-((e : Int) - 52)).toNat)
        rw [← Nat.pow_add] at hmul
        refine Nat.lt_of_lt_of_le hmul ?_
        rw [Nat.mul_one]
        exact Nat.pow_le_pow_right (by decide) (by omega)
    have hexp : ((e : Int) + 1022).toNat ≤ 1085 := by omega
    have hmul := Nat.mul_le_mul_right (2 ^ 52) hexp
    have hinf : infBits = 2047 * 2 ^ 52 := rfl
    omega

lemma magnitude_ofInt_ge (h : 2 ^ k ≤ i.natAbs) (hk : k ≤ 1024) :
    (k + 1021) * 2 ^ 52 ≤ (ofInt i).magnitude := by
  rw [ofInt, magnitude_ofRatio]
  exact roundMagnitude_ge (by decide) (by rwa [Nat.mul_one]) hk

lemma isZero_ofInt (h : i ≠ 0) : (ofInt i).isZero = false := by
  have hge := @magnitude_ofInt_ge i 0 (by rw [Nat.pow_zero]; omega) (by decide)
  have hne : (ofInt i).magnitude ≠ 0 := by omega
  simp [isZero, hne]

lemma neg_ofInt (h : i ≠ 0) : (ofInt i).neg = ofInt (-i) := by
  have hsign : (!decide (i < 0)) = decide (-i < 0) := by
    rw [← decide_not]
    exact decide_eq_decide.2 (by omega)
  rw [neg, isNegative_ofInt, ofInt, magnitude_ofRatio, hsign, ofInt, Int.natAbs_neg]
  rfl

lemma not_special (h : x.isFinite = true) : x.isNaN = false ∧ x.isInfinite = false := by
  simp only [isFinite, decide_eq_true_eq] at h
  simp only [isNaN, isInfinite, gt_iff_lt, decide_eq_false_iff_not]
  omega

lemma magnitude_ofSigned_ge {num : Int} {z : Bool} (hden : 0 < den) (h : 2 ^ k * den ≤ num.natAbs)
    (hk : k ≤ 1024) :
    (k + 1021) * 2 ^ 52 ≤ (ofSigned num den z).magnitude := by
  have hpos := Nat.mul_pos (Nat.two_pow_pos k) hden
  rw [ofSigned, if_neg (by omega), magnitude_ofRatio]
  exact roundMagnitude_ge hden h hk

lemma absRatio_ofInt_ge (h : 2 ^ k ≤ i.natAbs) (hk : k ≤ 1024) :
    2 ^ k * (ofInt i).absRatio.2 ≤ 4 * (ofInt i).absRatio.1 := absRatio_ge (magnitude_ofInt_ge h hk)

lemma magnitude_add_ofInt {j : Int} (hi : Wide i) (hj : Wide j) (hsign : i < 0 ↔ j < 0)
    (hbig : 2 ^ 62 ≤ i.natAbs ∨ 2 ^ 62 ≤ j.natAbs) :
    (60 + 1021) * 2 ^ 52 ≤ (add (ofInt i) (ofInt j)).magnitude := by
  have hfi := not_special (isFinite_ofInt hi)
  have hfj := not_special (isFinite_ofInt hj)
  have hden := Nat.mul_pos (absRatio_snd_pos (ofInt i)) (absRatio_snd_pos (ofInt j))
  have hli := fun h => @absRatio_ofInt_ge i 62 h (by decide)
  have hlj := fun h => @absRatio_ofInt_ge j 62 h (by decide)
  rw [add]
  simp only [hfi.1, hfi.2, hfj.1, hfj.2, Bool.or_self, Bool.false_eq_true, if_false, numerator,
    isNegative_ofInt, decide_eq_true_eq]
  refine magnitude_ofSigned_ge hden ?_ (by decide)
  generalize (ofInt i).absRatio = p at *
  generalize (ofInt j).absRatio = q at *
  -- both numerators have the same sign, so their absolute values add up
  have habs : ((if i < 0 then -(p.1 : Int) else p.1) * q.2 + (if j < 0 then -(q.1 : Int) else
    q.1) * p.2).natAbs
      = p.1 * q.2 + q.1 * p.2 := by
    by_cases h : i < 0
    · rw [if_pos h,
        if_pos (hsign.1 h), ← Int.natAbs_natCast (p.1 * q.2 + q.1 * p.2), ← Int.natAbs_neg]
      push_cast
      ring_nf
    · rw [if_neg h, if_neg (fun hj => h (hsign.2 hj)), ← Int.natAbs_natCast (p.1 * q.2 + q.1 * p.2)]
      push_cast
      rfl
  rw [habs]
  rcases hbig with h | h
  · have hp : 2 ^ 60 * p.2 ≤ p.1 := by have := hli h; omega
    calc 2 ^ 60 * (p.2 * q.2) = 2 ^ 60 * p.2 * q.2 := (Nat.mul_assoc _ _ _).symm
      _ ≤ p.1 * q.2 := Nat.mul_le_mul_right _ hp
      _ ≤ _ := Nat.le_add_right _ _
  · have hq : 2 ^ 60 * q.2 ≤ q.1 := by have := hlj h; omega
    calc 2 ^ 60 * (p.2 * q.2) = 2 ^ 60 * q.2 * p.2 := by ring
      _ ≤ q.1 * p.2 := Nat.mul_le_mul_right _ hq
      _ ≤ _ := Nat.le_add_left _ _

lemma magnitude_mul_ofInt {j : Int} {l : Nat} (hi : Wide i) (hj : Wide j)
    (hk : 2 ^ k ≤ i.natAbs) (hl : 2 ^ l ≤ j.natAbs) (hk' : k ≤ 1024) (hl' : l ≤ 1024)
    (hbig : 62 ≤ k + l) : (58 + 1021) * 2 ^ 52 ≤ (mul (ofInt i) (ofInt j)).magnitude := by
  have hfi := not_special (isFinite_ofInt hi)
  have hfj := not_special (isFinite_ofInt hj)
  have hden := Nat.mul_pos (absRatio_snd_pos (ofInt i)) (absRatio_snd_pos (ofInt j))
  have hp := absRatio_ofInt_ge hk hk'
  have hq := absRatio_ofInt_ge hl hl'
  rw [mul]
  simp only [hfi.1, hfi.2, hfj.1, hfj.2, Bool.or_self, Bool.false_eq_true, if_false,
    magnitude_ofRatio]
  refine roundMagnitude_ge hden ?_ (by decide)
  generalize (ofInt i).absRatio = p at *
  generalize (ofInt j).absRatio = q at *
  have hpow : 2 ^ 62 ≤ 2 ^ (k + l) := Nat.pow_le_pow_right (by decide) hbig
  have hprod : 2 ^ 62 * (p.2 * q.2) ≤ 16 * (p.1 * q.1) :=
    calc 2 ^ 62 * (p.2 * q.2) ≤ 2 ^ (k + l) * (p.2 * q.2) := Nat.mul_le_mul_right _ hpow
      _ = (2 ^ k * p.2) * (2 ^ l * q.2) := by rw [Nat.pow_add]; ring
      _ ≤ (4 * p.1) * (4 * q.1) := Nat.mul_le_mul hp hq
      _ = 16 * (p.1 * q.1) := by ring
  omega

end F64
