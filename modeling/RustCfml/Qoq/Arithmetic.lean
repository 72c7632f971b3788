import RustCfml.Lib.Decimal
import RustCfml.Lib.F64Arith
import RustCfml.Qoq.Engine
import RustCfml.Qoq.SortOrder

/-!
# `execution.rs` and `functions.rs`: arithmetic on SQL values

Integer operands stay integers as long as the exact result fits: `+`, `-` and `*` are checked and
fall back to doubles, `%` and `MOD` are exact, `/` is always a double. **A result that does not
fit is at least 2⁶³ in size, and no such double is taken back for an integer**, because
`integral_or_double` stops at 9·10¹⁵.
-/

namespace RustCfml.Qoq

inductive Halt where
  | error (message : String)
  /-- A Rust panic. -/
  | abort (message : String)

variable (P : Platform)

def toF64 : CfmlValue → Option F64
  | .int i => some (F64.ofInt i.toInt)
  | .double d => some d
  | .bool b => some (if b then F64.one else F64.zero)
  | .string s => F64.parse (trim s.toList)
  | _ => none

def toI64 : CfmlValue → Option Int64
  | .int i => some i
  | .double d => some d.toI64
  | .bool b => some (if b then 1 else 0)
  | .string s =>
    let t := trim s.toList
    ((Decimal.parse (-2 ^ 63) (2 ^ 63 - 1) t).map Int64.ofInt).or ((F64.parse t).map F64.toI64)
  | _ => none

/-- A whole double below 9·10¹⁵ is an integer. -/
def integralOrDouble (n : F64) : CfmlValue :=
  if n.isIntegral && n.absLt 9000000000000000 then .int n.toI64 else .double n

def nonNumeric (v : CfmlValue) : Halt :=
  let text := asString P v
  .error s!"Query of Queries: '{text}' is not numeric in an arithmetic expression"

def numeric (v : CfmlValue) : Except Halt F64 :=
  match toF64 v with
  | some n => .ok n
  | none => .error (nonNumeric P v)

/-! ## Operators -/

/-- `None` where the result does not fit. -/
def checked (exact : Int) : Option Int64 :=
  if -2 ^ 63 ≤ exact ∧ exact < 2 ^ 63 then some (Int64.ofInt exact) else none

/-- One remainder overflows, and that panics. -/
def remI64 (a b : Int64) : Except Halt Int64 :=
  if a = Int64.minValue ∧ b = -1 then
    .error (.abort "attempt to calculate the remainder with overflow")
  else .ok (Int64.ofInt (a.toInt.tmod b.toInt))

def intArith (a : Int64) (op : BinaryOp) (b : Int64) : Option (Except Halt CfmlValue) :=
  match op with
  | .sub => (checked (a.toInt - b.toInt)).map fun v => .ok (.int v)
  | .mul => (checked (a.toInt * b.toInt)).map fun v => .ok (.int v)
  | .mod => some (if b = 0 then .error (.error "Query of Queries: modulo by zero")
      else (remI64 a b).map .int)
  | _ => none

def floatArith (a : F64) (op : BinaryOp) (b : F64) : Except Halt CfmlValue :=
  match op with
  | .sub => .ok (integralOrDouble (a.sub b))
  | .mul => .ok (integralOrDouble (a.mul b))
  | .div => if b.isZero then .error (.error "Query of Queries: division by zero")
      else .ok (.double (a.div b))
  | .mod => if b.isZero then .error (.error "Query of Queries: modulo by zero")
      else .ok (integralOrDouble (a.rem b))
  | _ => .error (.abort "internal error: entered unreachable code")

/-- `arith` on `+`: a sum of numbers, a concatenation otherwise. -/
def plus (l r : CfmlValue) : CfmlValue :=
  match toF64 l, toF64 r with
  | some a, some b =>
    match l, r with
    | .int x, .int y =>
      match checked (x.toInt + y.toInt) with
      | some v => .int v
      | none => integralOrDouble (a.add b)
    | _, _ => integralOrDouble (a.add b)
  | _, _ => .string (asString P l ++ asString P r)

def arithNumeric (l : CfmlValue) (op : BinaryOp) (r : CfmlValue) : Except Halt CfmlValue := do
  let a ← numeric P l
  let b ← numeric P r
  floatArith a op b

/-- Null with anything is null. -/
def arith (l : CfmlValue) (op : BinaryOp) (r : CfmlValue) : Except Halt CfmlValue :=
  if l.isNull || r.isNull then .ok .null
  else if op = .add then .ok (plus P l r)
  else
    match l, r with
    | .int a, .int b => (intArith a op b).getD (arithNumeric P l op r)
    | _, _ => arithNumeric P l op r

def bitwise (l : CfmlValue) (op : BinaryOp) (r : CfmlValue) : Except Halt CfmlValue :=
  if l.isNull || r.isNull then .ok .null
  else
    let a := (toI64 l).getD 0
    let b := (toI64 r).getD 0
    match op with
    | .bitAnd => .ok (.int (a &&& b))
    | .bitOr => .ok (.int (a ||| b))
    | .bitXor => .ok (.int (a ^^^ b))
    | _ => .error (.abort "internal error: entered unreachable code")

/-- The `Neg` arm of `apply_unary`. -/
def negateValue (v : CfmlValue) : Except Halt CfmlValue :=
  match v with
  | .null => .ok .null
  | .int i => .ok (.int (-i))
  | v =>
    match toF64 v with
    | some n => .ok (.double n.neg)
    | none => .error (.error "Query of Queries: cannot negate a non-numeric value")

def absValue : List CfmlValue → CfmlValue
  | .int i :: _ => .int (if i < 0 then -i else i)
  | v :: _ =>
    let n := (toF64 v).getD F64.zero
    integralOrDouble (F64.withSign false n.magnitude)
  | [] => .null

def modulo (a b : CfmlValue) : Except Halt CfmlValue :=
  match a, b with
  | .int x, .int y =>
    if y = 0 then .error (.error "QoQ: modulo by zero") else (remI64 x y).map .int
  | _, _ =>
    let y := (toF64 b).getD F64.zero
    if y.isZero then .error (.error "QoQ: modulo by zero")
    else .ok (integralOrDouble (((toF64 a).getD F64.zero).rem y))

/-- The exact integer where it fits, a double otherwise. -/
def Exact (exact : Int) (r : Except Halt CfmlValue) : Prop :=
  if -2 ^ 63 ≤ exact ∧ exact < 2 ^ 63 then ∃ z : Int64, r = .ok (.int z) ∧ z.toInt = exact
  else ∃ d, r = .ok (.double d)

lemma toInt_ofInt_of_fits {i : Int} (h : -2 ^ 63 ≤ i ∧ i < 2 ^ 63) : (Int64.ofInt i).toInt = i := by
  exact Int64.toInt_ofInt_of_le h.1 h.2

lemma wide_toInt (x : Int64) : F64.Wide x.toInt := by
  have hlo := x.le_toInt
  have hhi := x.toInt_lt
  unfold F64.Wide
  omega

lemma integralOrDouble_large {n : F64} {i : Nat} (h : (i + 1021) * 2 ^ 52 ≤ n.magnitude)
    (hi : 58 ≤ i) : integralOrDouble n = .double n := by
  have hpow : 2 ^ 58 ≤ 2 ^ i := Nat.pow_le_pow_right (by decide) hi
  have hlt : n.absLt 9000000000000000 = false :=
    F64.absLt_eq_false h (Nat.le_trans (by decide) hpow)
  simp [integralOrDouble, hlt]

lemma exact_of_checked {exact : Int} {r : Except Halt CfmlValue}
    (hfits : ∀ v, checked exact = some v → r = .ok (.int v))
    (hover : checked exact = none → ∃ d, r = .ok (.double d)) : Exact exact r := by
  unfold Exact
  split
  · next h => exact ⟨_, hfits _ (if_pos h), toInt_ofInt_of_fits h⟩
  · next h => exact hover (if_neg h)

lemma not_fits_of_checked {exact : Int} (h : checked exact = none) :
    ¬(-2 ^ 63 ≤ exact ∧ exact < 2 ^ 63) := by
  intro hfits
  rw [checked, if_pos hfits] at h
  cases h

section

variable (x y : Int64)

lemma exact_add : Exact (x.toInt + y.toInt) (arith P (.int x) .add (.int y)) := by
  have harith : arith P (.int x) .add (.int y) = .ok (match checked (x.toInt + y.toInt) with
      | some v => .int v
      | none => integralOrDouble ((F64.ofInt x.toInt).add (F64.ofInt y.toInt))) := rfl
  rw [harith]
  refine exact_of_checked (fun v hv => by rw [hv]) fun hnone => ?_
  have hover := not_fits_of_checked hnone
  have hx := wide_toInt x
  have hy := wide_toInt y
  have hlarge := F64.magnitude_add_ofInt hx hy (by unfold F64.Wide at *; omega) (by omega)
  rw [hnone]
  exact ⟨_, congrArg Except.ok (integralOrDouble_large hlarge (by decide))⟩

lemma exact_sub : Exact (x.toInt - y.toInt) (arith P (.int x) .sub (.int y)) := by
  have harith : arith P (.int x) .sub (.int y) =
      ((checked (x.toInt - y.toInt)).map fun v => Except.ok (CfmlValue.int v)).getD
        (.ok (integralOrDouble ((F64.ofInt x.toInt).sub (F64.ofInt y.toInt)))) := rfl
  rw [harith]
  refine exact_of_checked (fun v hv => by rw [hv]; rfl) fun hnone => ?_
  have hover := not_fits_of_checked hnone
  have hlo := x.le_toInt
  have hhi := x.toInt_lt
  have hx := wide_toInt x
  have hy : F64.Wide (-y.toInt) := by
    have := wide_toInt y
    unfold F64.Wide at *
    omega
  have hlarge := F64.magnitude_add_ofInt hx hy (by unfold F64.Wide at *; omega) (by omega)
  rw [hnone, F64.sub, F64.neg_ofInt (by omega)]
  exact ⟨_, congrArg Except.ok (integralOrDouble_large hlarge (by decide))⟩

lemma exact_mul : Exact (x.toInt * y.toInt) (arith P (.int x) .mul (.int y)) := by
  have harith : arith P (.int x) .mul (.int y) =
      ((checked (x.toInt * y.toInt)).map fun v => Except.ok (CfmlValue.int v)).getD
        (.ok (integralOrDouble ((F64.ofInt x.toInt).mul (F64.ofInt y.toInt)))) := rfl
  rw [harith]
  refine exact_of_checked (fun v hv => by rw [hv]; rfl) fun hnone => ?_
  have hover := not_fits_of_checked hnone
  have hbig : 2 ^ 63 ≤ x.toInt.natAbs * y.toInt.natAbs := by
    rw [← Int.natAbs_mul]
    omega
  have hx0 : x.toInt.natAbs ≠ 0 := by rintro h; rw [h, Nat.zero_mul] at hbig; omega
  have hy0 : y.toInt.natAbs ≠ 0 := by rintro h; rw [h, Nat.mul_zero] at hbig; omega
  -- the bit lengths of the factors
  have hlogs : 62 ≤ Nat.log2 x.toInt.natAbs + Nat.log2 y.toInt.natAbs := by
    by_contra hlt
    have hprod := Nat.mul_lt_mul_of_lt_of_lt (Nat.lt_log2_self (n := x.toInt.natAbs))
      (Nat.lt_log2_self (n := y.toInt.natAbs))
    rw [← Nat.pow_add] at hprod
    have hpow : 2 ^ (Nat.log2 x.toInt.natAbs + 1 + (Nat.log2 y.toInt.natAbs + 1)) ≤ 2 ^ 63 :=
      Nat.pow_le_pow_right (by decide) (by omega)
    omega
  have hbound : ∀ z : Int64, z.toInt.natAbs ≠ 0 → Nat.log2 z.toInt.natAbs ≤ 1024 := by
    intro z hz
    by_contra hlt
    have h64 : 2 ^ 64 ≤ z.toInt.natAbs := (Nat.le_log2 hz).1 (by omega)
    have := wide_toInt z
    unfold F64.Wide at this
    omega
  have hlarge := F64.magnitude_mul_ofInt (wide_toInt x) (wide_toInt y) (Nat.log2_self_le hx0)
    (Nat.log2_self_le hy0) (hbound x hx0) (hbound y hy0) hlogs
  rw [hnone]
  exact ⟨_, congrArg Except.ok (integralOrDouble_large hlarge (by decide))⟩

lemma remI64_ok (h : ¬(x = Int64.minValue ∧ y = -1)) :
    ∃ z : Int64, remI64 x y = .ok z ∧ z.toInt = x.toInt.tmod y.toInt := by
  have hlo := x.le_toInt
  have hhi := x.toInt_lt
  have habs : (x.toInt.tmod y.toInt).natAbs ≤ x.toInt.natAbs := by
    rw [Int.natAbs_tmod]
    exact Nat.mod_le _ _
  refine ⟨_, by rw [remI64, if_neg h], toInt_ofInt_of_fits ?_⟩
  -- the remainder has the sign of the dividend, so it does not pass the upper bound
  have hsign : x.toInt < 0 → x.toInt.tmod y.toInt ≤ 0 := by
    intro hneg
    have hnonneg := Int.tmod_nonneg y.toInt (show 0 ≤ -x.toInt by omega)
    rw [Int.neg_tmod] at hnonneg
    omega
  by_cases hneg : x.toInt < 0
  · have := hsign hneg
    omega
  · omega

end

/-- **Integer operands.** `+`, `-`, `*`, the bit operators, and outside the smallest integer unary
    minus, `ABS`, `%` and `MOD`, are exact or leave the integers; `/` is the quotient of the two
    operands as doubles. -/
theorem integer_arithmetic (x y : Int64) :
    Exact (x.toInt + y.toInt) (arith P (.int x) .add (.int y)) ∧
    Exact (x.toInt - y.toInt) (arith P (.int x) .sub (.int y)) ∧
    Exact (x.toInt * y.toInt) (arith P (.int x) .mul (.int y)) ∧
    bitwise (.int x) .bitAnd (.int y) = .ok (.int (x &&& y)) ∧
    bitwise (.int x) .bitOr (.int y) = .ok (.int (x ||| y)) ∧
    bitwise (.int x) .bitXor (.int y) = .ok (.int (x ^^^ y)) ∧
    (arith P (.int x) .div (.int y) = if y = 0 then
      .error (.error "Query of Queries: division by zero")
      else .ok (.double ((F64.ofInt x.toInt).div (F64.ofInt y.toInt)))) ∧
    (y = 0 → arith P (.int x) .mod (.int y) = .error (.error "Query of Queries: modulo by zero") ∧
      modulo (.int x) (.int y) = .error (.error "QoQ: modulo by zero")) ∧
    (y ≠ 0 → ¬(x = Int64.minValue ∧ y = -1) → ∃ z : Int64, z.toInt = x.toInt.tmod y.toInt ∧
      arith P (.int x) .mod (.int y) = .ok (.int z) ∧ modulo (.int x) (.int y) = .ok (.int z)) ∧
    (x ≠ Int64.minValue → ∃ z w : Int64, negateValue (.int x) = .ok (.int z) ∧
      z.toInt = -x.toInt ∧ absValue [.int x] = .int w ∧ w.toInt = x.toInt.natAbs) := by
  refine ⟨exact_add P x y, exact_sub P x y, exact_mul P x y, rfl, rfl, rfl, ?_, ?_, ?_, ?_⟩
  · have harith : arith P (.int x) .div (.int y) =
        floatArith (F64.ofInt x.toInt) .div (F64.ofInt y.toInt) := rfl
    rw [harith, floatArith]
    by_cases hy : y = 0
    · subst hy
      rfl
    · have hne : y.toInt ≠ 0 := fun h => hy (Int64.toInt_inj.1 (h.trans Int64.toInt_zero.symm))
      simp [F64.isZero_ofInt hne, hy]
  · rintro rfl
    exact ⟨rfl, rfl⟩
  · intro hy hmin
    obtain ⟨z, hz, hval⟩ := remI64_ok x y hmin
    have harith : arith P (.int x) .mod (.int y) =
        if y = 0 then .error (.error "Query of Queries: modulo by zero")
        else (remI64 x y).map .int := rfl
    refine ⟨z, hval, ?_, ?_⟩
    · rw [harith, if_neg hy, hz]
      rfl
    · rw [modulo, if_neg hy, hz]
      rfl
  · intro hmin
    have hlo := x.le_toInt
    have hhi := x.toInt_lt
    have hne : x.toInt ≠ -2 ^ 63 := fun h => hmin (Int64.toInt_inj.1 (h.trans (by decide)))
    have hneg : (-x).toInt = -x.toInt := by
      rw [Int64.toInt_neg]
      exact Int.bmod_eq_of_le (by omega) (by omega)
    refine ⟨-x, _, rfl, hneg, rfl, ?_⟩
    split
    · next h =>
      have := Int64.lt_iff_toInt_lt.1 h
      rw [Int64.toInt_zero] at this
      omega
    · next h =>
      have hge : ¬x.toInt < 0 := fun hlt => h (Int64.lt_iff_toInt_lt.2 (by rwa [Int64.toInt_zero]))
      omega

/-- Dividing by one loses the last bit of a large integer: the quotient is a double. -/
theorem division_inexact : arith asciiPlatform (.int 9007199254740993) .div (.int 1) =
      .ok (.double (F64.ofInt 9007199254740992)) ∧ (F64.ofInt 9007199254740992).truncInt =
      9007199254740992 := by
  refine ⟨?_, by decide +kernel⟩
  show floatArith (F64.ofInt 9007199254740993) .div (F64.ofInt 1) = _
  have hquot : (F64.ofInt 9007199254740993).div (F64.ofInt 1) = F64.ofInt 9007199254740992 := by
    decide +kernel
  rw [floatArith, hquot, if_neg (by decide +kernel)]

end RustCfml.Qoq
