import Mathlib

/-!
# IEEE 754 binary64, as bit patterns

A double is its 64 bits: two values are the same exactly when their bit patterns are, so `0.0` and
`-0.0` differ and every NaN is itself.
-/

/-- A binary64 bit pattern. -/
structure F64 where
  bits : UInt64
deriving DecidableEq

namespace F64

def ofBitsNat (n : Nat) : F64 := ⟨UInt64.ofNat n⟩

def isNegative (x : F64) : Bool := x.bits.toNat ≥ 2 ^ 63

def magnitude (x : F64) : Nat := x.bits.toNat % 2 ^ 63

def exponentField (x : F64) : Nat := x.magnitude / 2 ^ 52

def fraction (x : F64) : Nat := x.magnitude % 2 ^ 52

def infBits : Nat := 0x7FF * 2 ^ 52

def isNaN (x : F64) : Bool := x.magnitude > infBits

def isInfinite (x : F64) : Bool := x.magnitude = infBits

def isFinite (x : F64) : Bool := x.magnitude < infBits

def withSign (neg : Bool) (magnitude : Nat) : F64 :=
  ofBitsNat (if neg then 2 ^ 63 + magnitude else magnitude)

def zero : F64 := withSign false 0

def one : F64 := withSign false (1023 * 2 ^ 52)

def nan : F64 := withSign false (infBits + 2 ^ 51)

/-- The significand and the binary exponent of a finite double: its absolute value is `m * 2 ^
e`. -/
def scaled (x : F64) : Nat × Int :=
  if x.exponentField = 0 then (x.fraction, -1074)
  else (2 ^ 52 + x.fraction, (x.exponentField : Int) - 1075)

def absRatio (x : F64) : Nat × Nat :=
  let (m, e) := x.scaled
  if 0 ≤ e then (m * 2 ^ e.toNat, 1) else (m, 2 ^ (-e).toNat)

def floorLog2 (num den : Nat) : Int :=
  let g : Int := (Nat.log2 num : Int) - Nat.log2 den
  let (n, d) := if 0 ≤ g then (num, den * 2 ^ g.toNat) else (num * 2 ^ (-g).toNat, den)
  if d ≤ n then g else g - 1

/-- The quotient rounded to the nearest integer, ties to the even one. -/
def divHalfEven (n d : Nat) : Nat :=
  let q := n / d
  let r := n % d
  if 2 * r > d ∨ (2 * r = d ∧ q % 2 = 1) then q + 1 else q

def roundMagnitude (num den : Nat) : Nat :=
  if num = 0 then 0
  else
    let e := max (floorLog2 num den) (-1022)
    let s := e - 52
    let m := if 0 ≤ s then divHalfEven num (den * 2 ^ s.toNat)
      else divHalfEven (num * 2 ^ (-s).toNat) den
    min ((e + 1022).toNat * 2 ^ 52 + m) infBits

def ofRatio (neg : Bool) (num den : Nat) : F64 := withSign neg (roundMagnitude num den)

def ofInt (i : Int) : F64 := ofRatio (decide (i < 0)) i.natAbs 1

/-- `x.fract() == 0.0`, false of the infinities and NaN (whose `fract` is NaN). -/
def isIntegral (x : F64) : Bool := x.isFinite && (x.absRatio.1 % x.absRatio.2 == 0)

/-- `x.trunc()` as an integer, for a finite double. -/
def truncInt (x : F64) : Int :=
  let a : Int := x.absRatio.1 / x.absRatio.2
  if x.isNegative then -a else a

def absLt (x : F64) (n : Nat) : Bool := x.isFinite && decide (x.absRatio.1 < n * x.absRatio.2)

/-- The key `total_cmp` compares: the pattern of a positive double, and for a negative one the
magnitude counted down from `-1`. -/
def totalKey (x : F64) : Int := if x.isNegative then -1 - x.magnitude else x.magnitude

def totalCmp (x y : F64) : Ordering := compare x.totalKey y.totalKey

end F64
