import RustCfml.Lib.ByteReader

/-!
# Readers over a cursor

Two notions about readers of the first kind. **`Extends r`: bytes behind what was read change
nothing**, and `Spans r bs P`: on bytes that begin with `bs`, whatever comes after them, `r` either
fails or reads `bs` and no more. Together they reject every strict prefix of `bs`.
-/

namespace CursorReader

open ByteReader List

variable {ε V α β : Type}

/-- How a decoder ends without a value. -/
inductive Halt (ε : Type) where
  | error (e : ε)
  | panic

/-- A position, and the log of what was done. -/
structure Cursor (V : Type) where
  i : Nat
  log : List V

def Decoder (ε V α : Type) := Cursor V → Except (Halt ε) α × Cursor V

instance : Monad (Decoder ε V) where
  pure a s := (.ok a, s)
  bind d f s :=
    match d s with
    | (.ok a, s) => f a s
    | (.error h, s) => (.error h, s)

namespace Decoder

lemma bind_apply (d : Decoder ε V α) (f : α → Decoder ε V β) (s : Cursor V) :
    (d >>= f) s = match d s with
      | (.ok a, s) => f a s
      | (.error h, s) => (.error h, s) := rfl

def fail (e : ε) : Decoder ε V α := fun s => (.error (.error e), s)

def panic : Decoder ε V α := fun s => (.error .panic, s)

def position : Decoder ε V Nat := fun s => (.ok s.i, s)

def moveTo (i : Nat) : Decoder ε V Unit := fun s => (.ok (), { s with i })

def note (v : V) : Decoder ε V Unit := fun s => (.ok (), { s with log := v :: s.log })

def times (d : Decoder ε V α) : Nat → Decoder ε V (List α)
  | 0 => pure []
  | n + 1 => do
    let a ← d
    let as ← times d n
    pure (a :: as)

end Decoder

def InOrder (b : Bytes) (P : V → Prop) (s : Cursor V) : Prop := s.i ≤ b.length ∧ ∀ v ∈ s.log, P v

/-- An outcome over the input `b` is the one of the reader, and what it yields satisfies `Q`. -/
def Answers (b : Bytes) (Q : α → Prop) (s : Cursor V) (expected : Except ε (α × Bytes)) :
    Except (Halt ε) α → Prop
  | .ok a => expected = .ok (a, b.drop s.i) ∧ Q a
  | .error (.error e) => expected = .error e
  | .error .panic => False

/-- The decoder does on the slice what the reader does on the rest of it, in bounds. -/
def Follows (b : Bytes) (P : V → Prop) (d : Decoder ε V α) (r : Reader ε α) (Q : α → Prop) : Prop :=
  ∀ s, InOrder b P s → InOrder b P (d s).2 ∧ Answers b Q (d s).2 (r (b.drop s.i)) (d s).1

namespace Follows

variable {b : Bytes} {P : V → Prop} {Q : α → Prop} {Q' : β → Prop}

lemma pure {a : α} (ha : Q a) : Follows (ε := ε) b P (Pure.pure a) (Pure.pure a) Q :=
  fun _ hs => ⟨hs, rfl, ha⟩

variable {r : Reader ε α} {d : Decoder ε V α}

lemma bind {f : α → Decoder ε V β} {g : α → Reader ε β}
    (h : Follows b P d r Q) (hf : ∀ a, Q a → Follows b P (f a) (g a) Q') :
    Follows b P (d >>= f) (r >>= g) Q' := by
  intro s hs
  obtain ⟨hin, hans⟩ := h s hs
  have hr : (r >>= g) (b.drop s.i) = (r (b.drop s.i)).bind fun p => g p.1 p.2 := rfl
  rw [Decoder.bind_apply, hr]
  rcases hds : d s with ⟨_ | a, s'⟩
  all_goals rw [hds] at hin hans
  · rename_i halt
    refine ⟨hin, ?_⟩
    cases halt with
    | error e =>
      have hans : r (b.drop s.i) = .error e := hans
      simp only [hans]
      rfl
    | panic => exact hans.elim
  · obtain ⟨hok, ha⟩ := hans
    simp only [hok]
    exact hf a ha s' hin

lemma map {f : α → β} (h : Follows b P d r Q) :
    Follows b P (do let a ← d; Pure.pure (f a)) (do let a ← r; Pure.pure (f a)) fun _ => True :=
  h.bind fun _ _ => .pure trivial

lemma note_bind {v : V} (hv : P v) {d : Unit → Decoder ε V α}
    (h : Follows b P (d ()) r Q) : Follows b P (Decoder.note v >>= d) r Q := by
  intro s hs
  refine h ⟨s.i, v :: s.log⟩ ⟨hs.1, fun w hw => ?_⟩
  rcases mem_cons.1 hw with rfl | hw
  · exact hv
  · exact hs.2 w hw

lemma position_bind {f : Nat → Decoder ε V α} (h : ∀ s, InOrder b P s → InOrder b P (f s.i s).2 ∧
      Answers b Q (f s.i s).2 (r (b.drop s.i)) (f s.i s).1) :
    Follows b P (Decoder.position >>= f) r Q := h

lemma times (h : Follows b P d r Q) (n : Nat) :
    Follows b P (d.times n) (ByteReader.times r n) fun _ => True := by
  induction n with
  | zero => exact .pure trivial
  | succ n ih => exact h.bind fun a _ => ih.map

end Follows

/-- More bytes behind do not change what was read. -/
def Extends (r : Reader ε α) : Prop := ∀ p x a l, r p = .ok (a, l) → r (p ++ x) = .ok (a, l ++ x)

lemma bind_eq_ok {r : Reader ε α} {f : α → Reader ε β} {p l : Bytes} {c : β}
    (h : (r >>= f) p = .ok (c, l)) : ∃ a m, r p = .ok (a, m) ∧ f a m = .ok (c, l) := by
  have hbind : (r >>= f) p = (r p).bind fun q => f q.1 q.2 := rfl
  rw [hbind] at h
  match hr : r p, h with
  | .ok (a, m), h => exact ⟨a, m, rfl, h⟩
  | .error _, h => cases h

namespace Extends

lemma pure (a : α) : Extends (ε := ε) (Pure.pure a : Reader ε α) := by
  rintro p x _ _ ⟨⟩
  rfl

lemma bind {r : Reader ε α} {f : α → Reader ε β} (hr : Extends r) (hf : ∀ a, Extends (f a)) :
    Extends (r >>= f) := by
  intro p x c l h
  obtain ⟨a, m, hok, hrest⟩ := bind_eq_ok h
  have hbind : (r >>= f) (p ++ x) = (r (p ++ x)).bind fun q => f q.1 q.2 := rfl
  rw [hbind, hr p x a m hok]
  exact hf a m x c l hrest

lemma times {r : Reader ε α} (h : Extends r) (n : Nat) : Extends (times r n) := by
  induction n with
  | zero => exact .pure _
  | succ n ih => exact h.bind fun a => ih.bind fun as => .pure _

end Extends

/-- A read that succeeds takes exactly these bytes. -/
def Spans (r : Reader ε α) (bs : Bytes) (P : α → Prop) : Prop :=
  ∀ rest a l, r (bs ++ rest) = .ok (a, l) → l = rest ∧ P a

namespace Spans

lemma pure (a : α) : Spans (ε := ε) (Pure.pure a : Reader ε α) [] fun _ => True := by
  rintro rest _ _ ⟨⟩
  exact ⟨rfl, trivial⟩

variable {r : Reader ε α} {bs : Bytes}

variable {P : α → Prop}

lemma bind {f : α → Reader ε β} {bs' : Bytes} {Q : β → Prop}
    (hr : Spans r bs P) (hf : ∀ a, P a → Spans (f a) bs' Q) : Spans (r >>= f) (bs ++ bs') Q := by
  intro rest c l h
  rw [append_assoc] at h
  obtain ⟨a, m, hok, hrest⟩ := bind_eq_ok h
  obtain ⟨rfl, ha⟩ := hr _ _ _ hok
  exact hf a ha rest c l hrest

lemma map {f : α → β} (hr : Spans r bs P) : Spans (do let a ← r; Pure.pure (f a)) bs fun _ =>
    True := by
  have h := hr.bind (f := fun a => (Pure.pure (f a) : Reader ε β)) fun a _ => .pure (f a)
  rwa [append_nil] at h

lemma times {parts : List Bytes} (h : ∀ bs ∈ parts, Spans r bs P) :
    Spans (times r parts.length) parts.flatten fun as => as.length = parts.length := by
  induction parts with
  | nil =>
    rintro rest _ _ ⟨⟩
    exact ⟨rfl, rfl⟩
  | cons bs parts ih =>
    rw [flatten_cons]
    refine (h bs (by simp)).bind fun a _ => ?_
    have hrest := ih fun bs hbs => h bs (by simp [hbs])
    intro rest as l hok
    obtain ⟨as', m, htimes, hpure⟩ := bind_eq_ok hok
    obtain ⟨hm, hlen⟩ := hrest rest as' m htimes
    cases hpure
    exact ⟨hm, congrArg (· + 1) hlen⟩

lemma prefix_not_read {p : Bytes} (h : Spans r bs P)
    (hext : Extends r) (hp : p <+: bs) (hne : p ≠ bs) (a : α) : r p ≠ .ok (a, []) := by
  intro hok
  obtain ⟨x, rfl⟩ := hp
  have hx := hext p x a [] hok
  rw [← append_nil (p ++ x)] at hx
  have hnil : x = [] := (h [] a _ hx).1
  exact hne (by rw [hnil, append_nil])

end Spans

end CursorReader
