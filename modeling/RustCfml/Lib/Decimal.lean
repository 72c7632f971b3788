import Mathlib

/-!
# Signed decimal text

An integer as its digits behind an optional minus sign, and the parser of a fixed-width integer
that reads it back: an optional sign, at least one digit, nothing else, and the value in range.
The parser reads more than the printer writes (`+7`, `007`), so **two texts may stand for one
integer, but one text never for two**.
-/

namespace Decimal

/-- `to_string` of an integer. -/
def ofInt (i : Int) : List Char :=
  if i < 0 then '-' :: Nat.toDigits 10 i.natAbs else Nat.toDigits 10 i.natAbs

def splitSign : List Char → Bool × List Char
  | '-' :: cs => (true, cs)
  | '+' :: cs => (false, cs)
  | cs => (false, cs)

/-- `str::parse` of an integer type with the given bounds. -/
def parse (lo hi : Int) (cs : List Char) : Option Int :=
  let (neg, ds) := splitSign cs
  if ds ≠ [] ∧ ds.all Char.isDigit then
    let n : Int := Nat.ofDigitChars 10 ds 0
    let i := if neg then -n else n
    if lo ≤ i ∧ i ≤ hi then some i else none
  else none

variable {cs : List Char} {i lo hi : Int} {c : Char}

lemma isDigit_of_mem {n : Nat} (h : c ∈ Nat.toDigits 10 n) : c.isDigit = true :=
  Nat.isDigit_of_mem_toDigits (by decide) (by decide) h

lemma splitSign_digits (h : ∀ c ∈ cs, c.isDigit = true) : splitSign cs = (false, cs) := by
  unfold splitSign
  split
  · next cs => exact absurd (h '-' (by simp)) (by decide)
  · next cs => exact absurd (h '+' (by simp)) (by decide)
  · rfl

lemma splitSign_ofInt (i : Int) :
    splitSign (ofInt i) = (decide (i < 0), Nat.toDigits 10 i.natAbs) := by
  unfold ofInt
  split
  · next h => simp [splitSign, h]
  · next h => rw [splitSign_digits fun c hc => isDigit_of_mem hc]; simp [h]

lemma parse_ofInt (hlo : lo ≤ i) (hhi : i ≤ hi) : parse lo hi (ofInt i) = some i := by
  have hdigits : (Nat.toDigits 10 i.natAbs).all Char.isDigit = true :=
    List.all_eq_true.2 fun c hc => isDigit_of_mem hc
  have hvalue : Nat.ofDigitChars 10 (Nat.toDigits 10 i.natAbs) 0 = i.natAbs :=
    Nat.ofDigitChars_toDigits (by decide) (by decide)
  have hsigned : (if decide (i < 0) = true then -(i.natAbs : Int) else i.natAbs) = i := by
    by_cases h : i < 0
    · rw [if_pos (decide_eq_true h)]; omega
    · rw [if_neg (by simpa using h)]; omega
  rw [parse, splitSign_ofInt]
  dsimp only
  rw [if_pos ⟨Nat.toDigits_ne_nil, hdigits⟩, hvalue, hsigned, if_pos ⟨hlo, hhi⟩]

lemma ofInt_inj {j : Int} (h : ofInt i = ofInt j) : i = j := by
  have hi : parse (min i j) (max i j) (ofInt i) = some i :=
    parse_ofInt (Int.min_le_left i j) (Int.le_max_left i j)
  have hj : parse (min i j) (max i j) (ofInt j) = some j :=
    parse_ofInt (Int.min_le_right i j) (Int.le_max_right i j)
  rw [h, hj] at hi
  exact (Option.some.inj hi).symm

lemma toLower_digit (h : c.isDigit = true) : c.toLower = c := by
  have hc : ¬c.isUpper := by
    simp only [Char.isDigit, Char.isUpper, Bool.and_eq_true, decide_eq_true_eq] at h ⊢
    intro hup
    exact absurd (UInt32.le_trans hup.1 h.2) (by decide)
  simp [Char.toLower, Char.isUpper] at hc ⊢
  intro h1 h2
  exact absurd (hc h1) (by simpa using h2)

lemma map_toLower_digits (h : ∀ c ∈ cs, c.isDigit = true) : cs.map Char.toLower = cs := by
  rw [List.map_congr_left fun c hc => toLower_digit (h c hc), List.map_id']

lemma map_toLower_ofInt (i : Int) : (ofInt i).map Char.toLower = ofInt i := by
  have h := map_toLower_digits fun c hc => isDigit_of_mem (n := i.natAbs) hc
  unfold ofInt
  split
  · rw [List.map_cons, h]
    rfl
  · exact h

lemma map_toLower_of_parse (h : parse lo hi cs = some i) : cs.map Char.toLower = cs := by
  rw [parse] at h
  have hdigits : (splitSign cs).2.all Char.isDigit = true := by
    by_contra hne
    simp only [hne, and_false, if_false, reduceCtorEq] at h
  have hmap := map_toLower_digits (List.all_eq_true.1 hdigits)
  revert hmap
  unfold splitSign
  split
  iterate 2
    · intro hmap
      rw [List.map_cons, hmap]
      rfl
  · exact id

end Decimal
