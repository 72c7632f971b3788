import Mathlib

/-!
# Byte readers, and the fixed-width integers they read

A reader consumes a front part of the bytes it is given and yields a value and the rest, or fails.
The one notion a round trip needs of it is `Reads r bs a`: **in front of any bytes whatsoever, `r`
consumes exactly `bs` and yields `a`**.
-/

namespace ByteReader

open List

abbrev Bytes := List UInt8

abbrev Reader (ε α : Type) := StateT Bytes (Except ε) α

variable {ε α β : Type}

/-- The counted loop `for _ in 0..n { out.push(r()?) }`. -/
def times (r : Reader ε α) : Nat → Reader ε (List α)
  | 0 => pure []
  | n + 1 => do
    let a ← r
    let as ← times r n
    pure (a :: as)

def Reads (r : Reader ε α) (bs : Bytes) (a : α) : Prop := ∀ rest, r (bs ++ rest) = .ok (a, rest)

variable {r : Reader ε α} {bs : Bytes} {a : α}

lemma Reads.run (h : Reads r bs a) : r bs = .ok (a, []) := by
  have h0 := h []
  rwa [append_nil] at h0

lemma Reads.pure (a : α) : Reads (ε := ε) (pure a) [] a := fun _ => rfl

lemma Reads.bind {f : α → Reader ε β} {bs' : Bytes} {b : β}
    (hr : Reads r bs a) (hf : Reads (f a) bs' b) : Reads (r >>= f) (bs ++ bs') b := by
  intro rest
  show (r (bs ++ bs' ++ rest)).bind (fun p => f p.1 p.2) = _
  rw [append_assoc, hr]
  exact hf rest

lemma Reads.map {f : α → β} (hr : Reads r bs a) :
    Reads (do let a ← r; Pure.pure (f a)) bs (f a) := by
  have h := hr.bind (f := fun a => Pure.pure (f a)) (Reads.pure (f a))
  rwa [append_nil] at h

lemma Reads.times {as : List α} {parts : List Bytes}
    (h : Forall₂ (fun a bs => Reads r bs a) as parts) :
    Reads (times r as.length) parts.flatten as := by
  induction h with
  | nil => exact Reads.pure []
  | @cons a bs as parts ha _ ih =>
    show Reads (r >>= fun a => ByteReader.times r as.length >>= fun as => Pure.pure (a :: as)) _ _
    rw [flatten_cons]
    exact ha.bind ih.map

/-- A loop that writes each item in turn: when every item can be written, so can the list, and what
each item's bytes satisfy they satisfy side by side. -/
lemma mapM_ok {ε α β : Type} {f : α → Except ε β} {P : α → β → Prop} {xs : List α}
    (h : ∀ x ∈ xs, ∃ y, f x = .ok y ∧ P x y) : ∃ ys, xs.mapM f = .ok ys ∧ Forall₂ P xs ys := by
  induction xs with
  | nil => exact ⟨[], rfl, .nil⟩
  | cons x xs ih =>
    obtain ⟨y, hy, hp⟩ := h x (by simp)
    obtain ⟨ys, hys, hps⟩ := ih fun z hz => h z (by simp [hz])
    refine ⟨y :: ys, ?_, .cons hp hps⟩
    rw [mapM_cons, hy, hys]
    rfl

/-- The low `k` bytes of `n`, lowest first. -/
def leBytes : Nat → Nat → Bytes
  | 0, _ => []
  | k + 1, n => UInt8.ofNat n :: leBytes k (n / 256)

def ofLeBytes : Bytes → Nat
  | [] => 0
  | b :: bs => b.toNat + 256 * ofLeBytes bs

@[simp] lemma length_leBytes (k n : Nat) : (leBytes k n).length = k := by
  induction k generalizing n with
  | zero => rfl
  | succ k ih => rw [leBytes, length_cons, ih]

lemma ofLeBytes_leBytes {k n : Nat} (h : n < 256 ^ k) : ofLeBytes (leBytes k n) = n := by
  induction k generalizing n with
  | zero =>
    rw [Nat.pow_zero, Nat.lt_one_iff] at h
    rw [h]
    rfl
  | succ k ih =>
    have hdiv : n / 256 < 256 ^ k := by
      rw [Nat.div_lt_iff_lt_mul (by decide), ← Nat.pow_succ]
      exact h
    rw [leBytes, ofLeBytes, ih hdiv, UInt8.toNat_ofNat']
    exact Nat.mod_add_div n 256

end ByteReader
