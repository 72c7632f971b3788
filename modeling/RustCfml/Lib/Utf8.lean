import Mathlib

/-!
# Decoding UTF-8 that may be wrong

**Decoding two parts one after the other is decoding them together, unless the first ends inside a
character that the second continues** (`lossy_append_iff`).
-/

namespace Utf8

open List

/-- Between characters, or inside one: its value so far, the bytes owed, the least and the greatest
the next one may be, and the bytes taken. -/
inductive State where
  | start
  | within (acc need lo hi taken : Nat)

structure Outcome where
  text : List Char
  bad : Bool
  state : State

def replacement : Char := '�'

def lead (b : Nat) : Option State :=
  if 0xC2 ≤ b ∧ b ≤ 0xDF then some (.within (b - 0xC0) 1 0x80 0xBF 1)
  else if b = 0xE0 then some (.within 0 2 0xA0 0xBF 1)
  else if b = 0xED then some (.within 0xD 2 0x80 0x9F 1)
  else if 0xE1 ≤ b ∧ b ≤ 0xEF then some (.within (b - 0xE0) 2 0x80 0xBF 1)
  else if b = 0xF0 then some (.within 0 3 0x90 0xBF 1)
  else if 0xF1 ≤ b ∧ b ≤ 0xF3 then some (.within (b - 0xF0) 3 0x80 0xBF 1)
  else if b = 0xF4 then some (.within 4 3 0x80 0x8F 1)
  else none

def first (b : UInt8) : Outcome :=
  if b.toNat < 0x80 then ⟨[Char.ofNat b.toNat], false, .start⟩
  else
    match lead b.toNat with
    | some state => ⟨[], false, state⟩
    | none => ⟨[replacement], true, .start⟩

def step : State → UInt8 → Outcome
  | .start, b => first b
  | .within acc need lo hi taken, b =>
    if lo ≤ b.toNat ∧ b.toNat ≤ hi then
      if need = 1 then ⟨[Char.ofNat (acc * 64 + b.toNat % 64)], false, .start⟩
      else ⟨[], false, .within (acc * 64 + b.toNat % 64) (need - 1) 0x80 0xBF (taken + 1)⟩
    else ⟨replacement :: (first b).text, true, (first b).state⟩

def run : State → List UInt8 → Outcome
  | s, [] => ⟨[], false, s⟩
  | s, b :: bs =>
    let r := step s b
    let r' := run r.state bs
    ⟨r.text ++ r'.text, r.bad || r'.bad, r'.state⟩

def flush : State → List Char
  | .start => []
  | .within .. => [replacement]

def rest (s : State) (bs : List UInt8) : List Char := (run s bs).text ++ flush (run s bs).state

def lossy (bs : List UInt8) : List Char := rest .start bs

inductive Validation where
  | ok
  /-- `error_len` is `None`: only the last character is unfinished. -/
  | incomplete (validUpTo : Nat)
  | invalid

/-- `str::from_utf8`. -/
def validate (bs : List UInt8) : Validation :=
  let r := run .start bs
  if r.bad then .invalid
  else
    match r.state with
    | .start => .ok
    | .within _ _ _ _ taken => .incomplete (bs.length - taken)

/-! ## Parts -/

variable {s : State} {a b : List UInt8}

lemma run_append : ∀ (a : List UInt8) (s : State) (b : List UInt8), run s (a ++ b) =
    ⟨(run s a).text ++ (run (run s a).state b).text, (run s a).bad || (run (run s a).state b).bad,
      (run (run s a).state b).state⟩
  | [], s, b => by simp [run]
  | x :: a, s, b => by
    rw [cons_append, run, run_append a]
    simp [run, append_assoc, Bool.or_assoc]

lemma rest_append (s : State) (a b : List UInt8) :
    rest s (a ++ b) = (run s a).text ++ rest (run s a).state b := by
  rw [rest, run_append, rest, append_assoc]

@[simp] lemma rest_nil (s : State) : rest s [] = flush s := by simp [rest, run]

lemma rest_cons (s : State) (x : UInt8) (b : List UInt8) :
    rest s (x :: b) = (step s x).text ++ rest (step s x).state b := by
  rw [rest, rest, run, append_assoc]

def Fits : State → UInt8 → Prop
  | .start, _ => False
  | .within _ _ lo hi _, x => lo ≤ x.toNat ∧ x.toNat ≤ hi

section

variable {acc need lo hi taken : Nat} {x : UInt8}

lemma step_of_fits (hx : Fits (.within acc need lo hi taken) x) :
    step (.within acc need lo hi taken) x =
      if need = 1 then ⟨[Char.ofNat (acc * 64 + x.toNat % 64)], false, .start⟩
      else ⟨[], false, .within (acc * 64 + x.toNat % 64) (need - 1) 0x80 0xBF (taken + 1)⟩ :=
      if_pos hx

lemma step_of_not_fits (hx : ¬ Fits (.within acc need lo hi taken) x) :
    step (.within acc need lo hi taken) x =
      ⟨replacement :: (first x).text, true, (first x).state⟩ := if_neg hx

end

def State.Ok : State → Prop
  | .start => True
  | .within _ need lo hi taken => 1 ≤ need ∧ 0x80 ≤ lo ∧ hi ≤ 0xBF ∧ 1 ≤ taken

variable {n : Nat}

lemma ok_of_lead (h : lead n = some s) : s.Ok := by
  unfold lead at h
  repeat' (split at h)
  all_goals cases h
  all_goals exact ⟨by omega, by omega, by omega, by omega⟩

lemma ok_first (x : UInt8) : (first x).state.Ok := by
  unfold first
  split
  · trivial
  · split
    next hlead => exact ok_of_lead hlead
    next => trivial

lemma State.Ok.step (h : s.Ok) (x : UInt8) : (step s x).state.Ok := by
  cases s with
  | start => exact ok_first x
  | within acc need lo hi taken =>
    by_cases hx : Fits (.within acc need lo hi taken) x
    · rw [step_of_fits hx]
      split
      · trivial
      next hneed =>
        exact ⟨by have := h.1; omega, le_rfl, le_rfl, Nat.le_add_left 1 taken⟩
    · rw [step_of_not_fits hx]
      exact ok_first x

lemma State.Ok.run (h : s.Ok) : ∀ bs : List UInt8, (run s bs).state.Ok := by
  intro bs
  induction bs generalizing s with
  | nil => exact h
  | cons x bs ih => exact ih (h.step x)

variable {x : UInt8}

lemma first_of_fits (h : s.Ok) (hx : Fits s x) : first x = ⟨[replacement], true, .start⟩ := by
  cases s with
  | start => cases hx
  | within acc need lo hi taken =>
    obtain ⟨-, hlo, hhi, -⟩ := h
    obtain ⟨h1, h2⟩ := hx
    have hlead : lead x.toNat = none := by
      unfold lead
      repeat' (split; omega)
      rfl
    rw [first, if_neg (by omega), hlead]

lemma rest_of_not_fits (hs : s ≠ .start) (hx : ¬ Fits s x) (b : List UInt8) :
    rest s (x :: b) = flush s ++ rest .start (x :: b) := by
  cases s with
  | start => exact absurd rfl hs
  | within acc need lo hi taken =>
    rw [rest_cons, rest_cons, step_of_not_fits hx]
    rfl

lemma length_rest_le (h : s.Ok) (bs : List UInt8) :
    (rest s bs).length ≤ 1 + (rest .start bs).length := by
  induction bs generalizing s with
  | nil => cases s <;> simp [flush]
  | cons x bs ih =>
    cases s with
    | start => omega
    | within acc need lo hi taken =>
      by_cases hx : Fits (.within acc need lo hi taken) x
      · have hfirst := first_of_fits h hx
        have hstart : rest .start (x :: bs) = replacement :: rest .start bs := by
          rw [rest_cons, step, hfirst]
          rfl
        rw [rest_cons, hstart, step_of_fits hx]
        split
        · simp only [length_append, length_cons, length_nil]
          omega
        next hneed =>
          have hok :
            State.Ok (.within (acc * 64 + x.toNat % 64) (need - 1) 0x80 0xBF (taken + 1)) :=
            ⟨by have := h.1; omega, le_rfl, le_rfl, Nat.le_add_left 1 taken⟩
          have := ih hok
          simp
          omega
      · rw [rest_of_not_fits State.noConfusion hx]
        simp only [flush, length_append, length_cons, length_nil]
        omega

lemma length_rest_lt (h : s.Ok) (hx : Fits s x) (b : List UInt8) :
    (rest s (x :: b)).length < (flush s).length + (rest .start (x :: b)).length := by
  cases s with
  | start => cases hx
  | within acc need lo hi taken =>
    have hfirst := first_of_fits h hx
    have hstart : rest .start (x :: b) = replacement :: rest .start b := by
      rw [rest_cons, step, hfirst]
      rfl
    have hnext := (State.Ok.step h x)
    have hle := length_rest_le hnext b
    rw [rest_cons, hstart]
    have htext : (step (.within acc need lo hi taken) x).text.length +
        (rest (step (.within acc need lo hi taken) x).state b).length ≤
            1 + (rest .start b).length := by
      rw [step_of_fits hx] at hle ⊢
      split
      · simp
      next hneed =>
        rw [if_neg hneed] at hle
        simpa using hle
    simp [flush]
    omega

/-- The first part ends inside a character and the second goes on with it. -/
def Continues (a b : List UInt8) : Prop := ∃ x b', b = x :: b' ∧ Fits (run .start a).state x

lemma ok_run_start (a : List UInt8) : (run .start a).state.Ok :=
  State.Ok.run (s := .start) trivial a

lemma lossy_append_of_not (h : ¬ Continues a b) : lossy (a ++ b) = lossy a ++ lossy b := by
  rw [lossy, rest_append]
  have hparts : lossy a ++ lossy b =
      (run .start a).text ++ (flush (run .start a).state ++ rest .start b) := by
    rw [lossy, rest, lossy, append_assoc]
  rw [hparts]
  congr 1
  cases hs : (run .start a).state with
  | start => rfl
  | within acc need lo hi taken =>
    cases b with
    | nil => simp [flush]
    | cons x b =>
      have hx : ¬ Fits (.within acc need lo hi taken) x := fun hx => h ⟨x, b, rfl, hs ▸ hx⟩
      exact rest_of_not_fits State.noConfusion hx b

/-- **Parts that break a character give more characters than the whole.** -/
theorem length_lossy_append (h : Continues a b) :
    (lossy (a ++ b)).length < (lossy a ++ lossy b).length := by
  obtain ⟨x, b', rfl, hx⟩ := h
  have hlt := length_rest_lt (ok_run_start a) hx b'
  rw [lossy, rest_append]
  simp [lossy, rest] at hlt ⊢
  omega

/-! ## Unfinished ends -/

lemma taken_of_first {acc need lo hi taken : Nat}
    (h : (first x).state = .within acc need lo hi taken) : taken = 1 := by
  unfold first at h
  split at h
  · cases h
  · split at h
    next s' hlead =>
      have hlead : lead x.toNat = some (.within acc need lo hi taken) :=
        hlead.trans (congrArg some h)
      generalize x.toNat = n at hlead
      unfold lead at hlead
      repeat' (split at hlead)
      all_goals simp only [Option.some.injEq, State.within.injEq, reduceCtorEq] at hlead
      all_goals exact hlead.2.2.2.2.symm
    next => cases h

/-- In a text with nothing wrong but its unfinished end, the bytes taken for that end start between
characters. -/
lemma run_take : ∀ (a : List UInt8), (run .start a).bad = false →
    ∀ acc need lo hi taken, (run .start a).state = .within acc need lo hi taken →
      (run .start (a.take (a.length - taken))).state = .start := by
  intro a
  induction a using reverseRecOn with
  | nil =>
    intro _ acc need lo hi taken hstate
    cases hstate
  | append_singleton a x ih =>
    intro hbad acc' need' lo' hi' taken' hstate
    have hone : ∀ s, run s [x] = ⟨(step s x).text, (step s x).bad, (step s x).state⟩ := by
      intro s
      simp [run]
    rw [run_append, hone] at hbad hstate
    obtain ⟨hbad1, hbad2⟩ := Bool.or_eq_false_iff.1 hbad
    dsimp only at hbad2 hstate
    cases hs : (run .start a).state with
    | start =>
      -- the byte starts the unfinished character
      rw [hs] at hstate
      have htaken := taken_of_first hstate
      rw [htaken, length_append, length_singleton, Nat.add_sub_cancel, take_left]
      exact hs
    | within acc need lo hi taken =>
      rw [hs] at hstate hbad2
      by_cases hx : Fits (.within acc need lo hi taken) x
      · rw [step_of_fits hx] at hstate
        split at hstate
        · cases hstate
        · cases hstate
          have hcut : (a ++ [x]).length - (taken + 1) = a.length - taken := by simp
          rw [hcut, take_append_of_le_length (Nat.sub_le _ _)]
          exact ih hbad1 acc need lo hi taken hs
      · rw [step_of_not_fits hx] at hbad2
        cases hbad2

lemma not_continues_take (h : validate a = .incomplete n) (b : List UInt8) :
    ¬ Continues (a.take n) b := by
  have htake := run_take a
  unfold validate at h
  dsimp only at h
  split at h
  · cases h
  next hbad =>
    split at h
    · cases h
    next acc need lo hi taken hs =>
      obtain rfl := Validation.incomplete.inj h
      rintro ⟨x, b', -, hx⟩
      rw [htake (by simpa using hbad) acc need lo hi taken hs] at hx
      exact hx

lemma not_continues_of_ok (h : validate a = .ok) (b : List UInt8) : ¬ Continues a b := by
  unfold validate at h
  dsimp only at h
  split at h
  · cases h
  · split at h
    next hs =>
      rintro ⟨x, b', -, hx⟩
      rw [hs] at hx
      exact hx
    next => cases h

def encodeChar (c : Char) : List UInt8 :=
  let n := c.toNat
  if n < 0x80 then [.ofNat n]
  else if n < 0x800 then [.ofNat (0xC0 + n / 64), .ofNat (0x80 + n % 64)]
  else if n < 0x10000 then
    [.ofNat (0xE0 + n / 4096), .ofNat (0x80 + n / 64 % 64), .ofNat (0x80 + n % 64)]
  else
    [.ofNat (0xF0 + n / 262144), .ofNat (0x80 + n / 4096 % 64), .ofNat (0x80 + n / 64 % 64),
      .ofNat (0x80 + n % 64)]

/-- `str::as_bytes`. -/
def encode (cs : List Char) : List UInt8 := cs.flatMap encodeChar

lemma toNat_byte (h : n < 256) : (UInt8.ofNat n).toNat = n := by
  rw [UInt8.toNat_ofNat']
  exact Nat.mod_eq_of_lt h

lemma rest_lead {s : State} (hn : n < 256) (hbig : 0x80 ≤ n) (h : lead n = some s)
    (bs : List UInt8) : rest .start (.ofNat n :: bs) = rest s bs := by
  have hfirst :
    first (.ofNat n) = ⟨[], false, s⟩ := by rw [first, toNat_byte hn, if_neg (by omega), h]
  rw [rest_cons, step, hfirst]
  rfl

lemma rest_next {acc need lo hi taken n : Nat} (hn : n < 64) (hlo : lo ≤ 0x80 + n)
    (hhi : 0x80 + n ≤ hi)
    (bs : List UInt8) : rest (.within acc need lo hi taken) (.ofNat (0x80 + n) :: bs) =
      if need = 1 then Char.ofNat (acc * 64 + n) :: rest .start bs
      else rest (.within (acc * 64 + n) (need - 1) 0x80 0xBF (taken + 1)) bs := by
  have hbyte := @toNat_byte (0x80 + n) (by omega)
  have hfits : Fits (.within acc need lo hi taken) (.ofNat (0x80 + n)) := by
    rw [Fits, hbyte]
    exact ⟨hlo, hhi⟩
  have hmod : (0x80 + n) % 64 = n := by omega
  rw [rest_cons, step_of_fits hfits, hbyte, hmod]
  split
  · rfl
  · rfl

lemma rest_encodeChar (c : Char) (bs : List UInt8) :
    rest .start (encodeChar c ++ bs) = c :: rest .start bs := by
  have hvalid : c.toNat < 0xD800 ∨ 0xDFFF < c.toNat ∧ c.toNat < 0x110000 := c.valid
  obtain ⟨n, hn⟩ : ∃ n, n = c.toNat := ⟨_, rfl⟩
  have hc : Char.ofNat n = c := by rw [hn, Char.ofNat_toNat]
  have hend {acc lo hi taken k : Nat} (h : k < 64) (hlo : lo ≤ 0x80 + k) (hhi : 0x80 + k ≤ hi)
      (hk : n = acc * 64 + k) : rest (.within acc 1 lo hi taken) (.ofNat (0x80 + k) :: bs) = c ::
          rest .start bs := by
    rw [rest_next h hlo hhi, if_pos rfl, ← hk, hc]
  rw [← hn] at hvalid
  unfold encodeChar
  rw [← hn]
  dsimp only
  split
  next h =>
    have hfirst : first (.ofNat n) = ⟨[c], false, .start⟩ := by
      rw [first, toNat_byte (by omega), if_pos h, hc]
    rw [singleton_append, rest_cons, step, hfirst]
    rfl
  next h1 =>
    split
    next h =>
      have hlead : lead (0xC0 + n / 64) = some (.within (n / 64) 1 0x80 0xBF 1) := by
        rw [lead, if_pos (by omega), Nat.add_sub_cancel_left]
      simp only [cons_append, nil_append]
      rw [rest_lead (by omega) (by omega) hlead]
      exact hend (by omega) (by omega) (by omega) (by omega)
    next h2 =>
      split
      next h =>
        -- the range of the second byte keeps out what is too short and the surrogates
        obtain ⟨lo, hi, hlead, hlo, hhi⟩ : ∃ lo hi, lead (0xE0 + n / 4096) =
            some (.within (n / 4096) 2 lo hi 1) ∧ lo ≤ 0x80 + n / 64 % 64 ∧
                0x80 + n / 64 % 64 ≤ hi := by
          by_cases hzero : n / 4096 = 0
          · exact ⟨0xA0, 0xBF, by rw [hzero]; rfl, by omega, by omega⟩
          · by_cases hsur : n / 4096 = 13
            · exact ⟨0x80, 0x9F, by rw [hsur]; rfl, by omega, by omega⟩
            · refine ⟨0x80, 0xBF, ?_, by omega, by omega⟩
              rw [lead, if_neg (by omega), if_neg (by omega), if_neg (by omega), if_pos (by omega),
                Nat.add_sub_cancel_left]
        simp only [cons_append, nil_append]
        rw [rest_lead (by omega) (by omega) hlead, rest_next (by omega) hlo hhi, if_neg (by omega)]
        exact hend (by omega) (by omega) (by omega) (by omega)
      next h3 =>
        obtain ⟨lo, hi, hlead, hlo, hhi⟩ : ∃ lo hi, lead (0xF0 + n / 262144) =
            some (.within (n / 262144) 3 lo hi 1) ∧
              lo ≤ 0x80 + n / 4096 % 64 ∧ 0x80 + n / 4096 % 64 ≤ hi := by
          by_cases hzero : n / 262144 = 0
          · exact ⟨0x90, 0xBF, by rw [hzero]; rfl, by omega, by omega⟩
          · by_cases hfour : n / 262144 = 4
            · exact ⟨0x80, 0x8F, by rw [hfour]; rfl, by omega, by omega⟩
            · refine ⟨0x80, 0xBF, ?_, by omega, by omega⟩
              rw [lead, if_neg (by omega), if_neg (by omega), if_neg (by omega), if_neg (by omega),
                if_neg (by omega), if_pos (by omega), Nat.add_sub_cancel_left]
        simp only [cons_append, nil_append]
        rw [rest_lead (by omega) (by omega) hlead, rest_next (by omega) hlo hhi, if_neg (by omega),
          rest_next (by omega) (by omega) (by omega), if_neg (by omega)]
        exact hend (by omega) (by omega) (by omega) (by omega)

theorem lossy_encode : ∀ cs : List Char, lossy (encode cs) = cs
  | [] => rfl
  | c :: cs => by
    have ih := lossy_encode cs
    rw [lossy] at ih ⊢
    rw [encode, flatMap_cons, rest_encodeChar]
    rw [encode] at ih
    rw [ih]

lemma le_of_mem_encodeChar {c : Char} {b : UInt8} (hc : 0x80 ≤ c.toNat) (hb : b ∈ encodeChar c) :
    0x80 ≤ b.toNat := by
  have hvalid : c.toNat < 0xD800 ∨ 0xDFFF < c.toNat ∧ c.toNat < 0x110000 := c.valid
  simp only [encodeChar, if_neg (Nat.not_lt.2 hc)] at hb
  split_ifs at hb
  all_goals
    simp only [mem_cons, not_mem_nil, or_false] at hb
    rcases hb with rfl | rfl | rfl | rfl <;> rw [toNat_byte (by omega)] <;> omega

/-- `u8::to_ascii_lowercase`. -/
def lowerByte (b : UInt8) : UInt8 := if 65 ≤ b.toNat ∧ b.toNat ≤ 90 then b + 32 else b

lemma lowerByte_ascii : ∀ n < 0x80, (Char.ofNat n).toLower.toNat < 0x80 ∧
    lowerByte (.ofNat n) = .ofNat (Char.ofNat n).toLower.toNat := by decide

lemma encodeChar_toLower (c : Char) : encodeChar c.toLower = (encodeChar c).map lowerByte := by
  by_cases hc : c.toNat < 0x80
  · have hlow := lowerByte_ascii _ hc
    rw [Char.ofNat_toNat] at hlow
    rw [encodeChar, if_pos hlow.1, encodeChar, if_pos hc, map_singleton, hlow.2]
  · have hsame : (encodeChar c).map lowerByte = encodeChar c := by
      refine (map_congr_left fun b hb => if_neg ?_).trans (map_id _)
      have := le_of_mem_encodeChar (Nat.le_of_not_lt hc) hb
      omega
    have hupper : ¬ (c.val ≥ 'A'.val ∧ c.val ≤ 'Z'.val) :=
      fun h => hc (Nat.lt_of_le_of_lt h.2 (by decide))
    rw [hsame, Char.toLower, dif_neg hupper]

lemma encode_ascii : ∀ bs : List UInt8, (∀ b ∈ bs, b.toNat < 0x80) →
    encode (bs.map fun b => Char.ofNat b.toNat) = bs
  | [], _ => rfl
  | b :: bs, h => by
    have hb := h b mem_cons_self
    have ih := encode_ascii bs (forall_mem_cons.1 h).2
    have hnat : (Char.ofNat b.toNat).toNat = b.toNat := by
      have hvalid : b.toNat.isValidChar := Or.inl (by omega)
      rw [Char.ofNat, dif_pos hvalid]
      rfl
    have hchar : encodeChar (Char.ofNat b.toNat) = [b] := by
      rw [encodeChar, hnat, if_pos hb, UInt8.ofNat_toNat]
    rw [encode] at ih ⊢
    rw [map_cons, flatMap_cons, hchar, ih]
    rfl

end Utf8
