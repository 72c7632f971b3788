import Mathlib

/-!
# Decoding UTF-16 that may be wrong

**The text may be cut anywhere but between a high surrogate and a low one** (`lossy_append`).
-/

namespace Utf16

def IsHigh (u : Nat) : Prop := 0xD800 ≤ u ∧ u < 0xDC00

def IsLow (u : Nat) : Prop := 0xDC00 ≤ u ∧ u < 0xE000

instance (u : Nat) : Decidable (IsHigh u) := inferInstanceAs (Decidable (_ ∧ _))

instance (u : Nat) : Decidable (IsLow u) := inferInstanceAs (Decidable (_ ∧ _))

lemma IsHigh.not_low {u : Nat} (h : IsHigh u) : ¬ IsLow u := by
  intro hl
  have := h.2
  have := hl.1
  omega

def lossy : List Nat → List Char
  | [] => []
  | [u] => if IsHigh u ∨ IsLow u then ['�'] else [Char.ofNat u]
  | u :: v :: us =>
    if IsHigh u then
      if IsLow v then Char.ofNat (0x10000 + (u - 0xD800) * 0x400 + (v - 0xDC00)) :: lossy us
      else '�' :: lossy (v :: us)
    else if IsLow u then '�' :: lossy (v :: us)
    else Char.ofNat u :: lossy (v :: us)

lemma lossy_cons {u : Nat} {us : List Nat} (h : IsHigh u → ∀ v ∈ us.head?, ¬ IsLow v) :
    lossy (u :: us) = lossy [u] ++ lossy us := by
  cases us with
  | nil => simp [lossy]
  | cons v us =>
    have hv : IsHigh u → ¬ IsLow v := fun hu => h hu v rfl
    by_cases hu : IsHigh u
    · simp [lossy, hu, hv hu]
    · by_cases hl : IsLow u <;> simp [lossy, hu, hl]

theorem lossy_append : ∀ (a b : List Nat),
    (∀ u ∈ a.getLast?, IsHigh u → ∀ v ∈ b.head?, ¬ IsLow v) → lossy (a ++ b) = lossy a ++ lossy b
  | [], b, _ => by simp [lossy]
  | [u], b, h => lossy_cons (h u rfl)
  | u :: v :: a, b, h => by
    have hlast : (v :: a).getLast? = (u :: v :: a).getLast? := by simp
    by_cases hpair : IsHigh u ∧ IsLow v
    · obtain ⟨hu, hv⟩ := hpair
      have ih := lossy_append a b (by
        intro w hw
        refine h w ?_
        cases a with
        | nil => cases hw
        | cons x a => simpa using hw)
      simp [lossy, hu, hv, ih]
    · have ih := lossy_append (v :: a) b (by rw [hlast]; exact h)
      have hout : IsHigh u → ∀ w ∈ (v :: a).head?, ¬ IsLow w := by
        intro hu w hw hlow
        obtain rfl : v = w := Option.some.inj hw
        exact hpair ⟨hu, hlow⟩
      have hwhole : lossy (u :: (v :: a ++ b)) = lossy [u] ++ lossy (v :: a ++ b) :=
        lossy_cons (by simpa using hout)
      rw [lossy_cons hout, List.cons_append, hwhole, ih, List.append_assoc]

def unit (bigEndian : Bool) (a b : UInt8) : Nat :=
  if bigEndian then a.toNat * 256 + b.toNat else b.toNat * 256 + a.toNat

/-- The 16-bit units of a byte sequence; a byte left over is a replacement character. -/
def units (bigEndian : Bool) : List UInt8 → List Nat
  | a :: b :: bytes => unit bigEndian a b :: units bigEndian bytes
  | [_] => [0xFFFD]
  | [] => []

lemma units_append (bigEndian : Bool) : ∀ (a b : List UInt8), a.length % 2 = 0 →
    units bigEndian (a ++ b) = units bigEndian a ++ units bigEndian b
  | [], _, _ => rfl
  | [_], _, h => by simp at h
  | x :: y :: a, b, h => by
    have heven : a.length % 2 = 0 := by
      rw [List.length_cons, List.length_cons] at h
      omega
    have ih := units_append bigEndian a b heven
    simp [units, ih]

def encode (cs : List Char) : List Nat :=
  cs.flatMap fun c =>
    let n := c.toNat
    if n < 0x10000 then [n]
    else [0xD800 + (n - 0x10000) / 0x400, 0xDC00 + (n - 0x10000) % 0x400]

end Utf16
