import RustCfml.Common.ObjCodecRoundTrip
import RustCfml.Lib.CursorReader
import RustCfml.Lib.Fallible

/-!
# The object decoder on bytes from anywhere

`ObjCodec.value` takes the bytes that are left. It notes what it reads, how deep it is and what it
reserves, and it **follows the reader on lists** (`follows_value`): none of the panics is reached.
What it reserves is in proportion to the input, with one exception: **each row of a query gets its
own copy of a long column name**, which the input holds once (`long_names_multiply`).
-/

namespace RustCfml.ObjCodec

open ByteReader CursorReader Decoder List

inductive Event where
  | read (start stop : Nat)
  /-- A value is decoded at a depth; below the limit the call fails before this. -/
  | enter (depth : Nat)
  | reserve (held n : Nat)
  /-- A row is given a column's name, of which that many bytes are copied. -/
  | copy (n : Nat)

def Event.Safe (b : Bytes) : Event → Prop
  | .read start stop => start ≤ stop ∧ stop ≤ b.length
  | .enter depth => depth ≤ maxDepth
  | .reserve held n => n ≤ b.length ∧ held + n ≤ 3 * (maxDepth + 1) * b.length
  | .copy _ => True

/-- The bytes of names that a run has copied. -/
def copied : List Event → Nat
  | [] => 0
  | .copy n :: log => n + copied log
  | _ :: log => copied log

/-- `intern`: up to 128 bytes the name is shared. -/
def copySize (name : String) : Nat := if name.utf8ByteSize > 128 then name.utf8ByteSize else 0

abbrev Dec (α : Type) := Decoder String Event α

section

variable (b : Bytes)

def slice (start stop : Nat) : Dec Bytes :=
  if start ≤ stop ∧ stop ≤ b.length then do
    note (.read start stop)
    pure ((b.drop start).take (stop - start))
  else panic

def takeAt (n : Nat) : Dec Bytes := do
  let i ← position
  if i + n < 2 ^ 64 ∧ i + n ≤ b.length then do
    let s ← slice b i (i + n)
    moveTo (i + n)
    pure s
  else Decoder.fail "truncated data"

def byteAt : Dec UInt8 := do
  match ← takeAt b 1 with
  | x :: _ => pure x
  | [] => panic

def lenLoopAt : List Nat → Nat → Dec Nat
  | [], _ => Decoder.fail "length overflow"
  | shift :: shifts, n => do
    let x ← byteAt b
    -- `checked_shl`
    if shift < 64 then do
      let n := n ||| ((x &&& 0x7f).toNat <<< shift) % 2 ^ 64
      if x &&& 0x80 = 0 then do
        let i ← position
        if i ≤ b.length then
          if n > b.length - i then Decoder.fail "length exceeds data" else pure n
        else panic
      else lenLoopAt shifts n
    else Decoder.fail "length overflow"

def lenAt : Dec Nat := lenLoopAt b shifts 0

def textAt : Dec String := do
  let n ← lenAt b
  let raw ← takeAt b n
  match String.fromUTF8? ⟨raw.toArray⟩ with
  | some s => pure s
  | none => Decoder.fail "invalid UTF-8 in string"

/-- `take(n)?.try_into().expect(..)`. -/
def fixedAt (n : Nat) : Dec Nat := do
  let raw ← takeAt b n
  if raw.length = n then pure (ofLeBytes raw) else panic

def structLoopAt (value : Dec CfmlValue) : Nat → ValueMap CfmlValue → Dec (ValueMap CfmlValue)
  | 0, m => pure m
  | n + 1, m => do
    let k ← textAt b
    let v ← value
    structLoopAt value n (m.insert k v)

def rowLoopAt (value : Dec CfmlValue) : List String → ValueMap CfmlValue → Dec (ValueMap CfmlValue)
  | [], m => pure m
  | c :: cs, m => do
    let v ← value
    note (.copy (copySize c))
    rowLoopAt value cs (m.insert c v)

def readDateAt : Dec CfmlValue := do
  let secs ← fixedAt b 8
  let nanos ← fixedAt b 4
  let kind ← byteAt b
  pure (.dateTime (fromEpoch (UInt64.ofNat secs).toInt64 nanos (kindOfByte kind)))

def readQueryAt (held : Nat) (value : Nat → Dec CfmlValue) : Dec CfmlValue := do
  let ncols ← lenAt b
  note (.reserve held ncols)
  let cols ← (textAt b).times ncols
  let nrows ← lenAt b
  note (.reserve (held + ncols) nrows)
  let readRow : Dec (ValueMap CfmlValue) := do
    note (.reserve (held + ncols + nrows) ncols)
    rowLoopAt (value (held + ncols + nrows + ncols)) cols []
  let rows ← readRow.times nrows
  pure (queryOfRows cols rows)

def valueAt (depth held : Nat) : Dec CfmlValue :=
  if _h : depth > maxDepth then Decoder.fail "nesting too deep"
  else do
    note (.enter depth)
    let tag ← byteAt b
    match tag.toNat with
    | 0 => pure .null
    | 1 => pure (.bool false)
    | 2 => pure (.bool true)
    | 3 => do let n ← fixedAt b 8; pure (.int (UInt64.ofNat n).toInt64)
    | 4 => do let n ← fixedAt b 8; pure (.double ⟨UInt64.ofNat n⟩)
    | 5 => do let n ← fixedAt b 8; pure (.timeSpan ⟨UInt64.ofNat n⟩)
    | 6 => do let s ← textAt b; pure (.string s)
    | 7 => do
      let n ← lenAt b
      let raw ← takeAt b n
      pure (.binary raw)
    | 8 => do
      let n ← lenAt b
      note (.reserve held n)
      let xs ← (valueAt (depth + 1) (held + n)).times n
      pure (.array xs)
    | 9 => do
      let n ← lenAt b
      note (.reserve held n)
      let m ← structLoopAt b (valueAt (depth + 1) (held + n)) n []
      pure (.struct m)
    | 10 => readQueryAt b held fun held => valueAt (depth + 1) held
    | 11 => readDateAt b
    | t => Decoder.fail ("unknown value tag " ++ toString t)
termination_by maxDepth + 1 - depth

def decodeAt : Dec CfmlValue := do
  let v ← valueAt b 0 0
  let i ← position
  if i ≠ b.length then Decoder.fail (toString (b.length - i) ++ " unexpected trailing bytes")
  else pure v

def decodeRun : Except (Halt String) CfmlValue × Cursor Event := decodeAt b ⟨0, []⟩

end

def Any {α : Type} (_ : α) : Prop := True

/-- The cursor on `b` does what the reader does, and all it notes is safe. -/
abbrev Mirrors (b : Bytes) {α : Type} : Dec α → Reader α → (α → Prop) → Prop :=
  Follows b (Event.Safe b)

section

variable {b : Bytes} (hb : b.length < 2 ^ 64)

lemma follows_fail {α : Type} {Q : α → Prop} (text : String) :
    Mirrors b (Decoder.fail text : Dec α) (ObjCodec.fail text) Q := fun _ hs => ⟨hs, rfl⟩

include hb

lemma follows_take (n : Nat) : Mirrors b (takeAt b n) (take n) fun s => s.length = n := by
  refine .position_bind fun s hs => ?_
  rw [take]
  by_cases hle : s.i + n ≤ b.length
  · have hlist : n ≤ (b.drop s.i).length := by rw [length_drop]; omega
    rw [if_pos ⟨by omega, hle⟩, if_pos hlist, slice, if_pos ⟨Nat.le_add_right _ _, hle⟩]
    refine ⟨⟨hle, fun v hv => ?_⟩, ?_, ?_⟩
    · rcases mem_cons.1 hv with rfl | hv
      · exact ⟨Nat.le_add_right _ _, hle⟩
      · exact hs.2 v hv
    · show Except.ok ((b.drop s.i).take n, (b.drop s.i).drop n) = _
      rw [drop_drop, Nat.add_sub_cancel_left]
      rfl
    · show ((b.drop s.i).take (s.i + n - s.i)).length = n
      rw [length_take, Nat.add_sub_cancel_left]
      omega
  · have hi := hs.1
    have hlist : ¬n ≤ (b.drop s.i).length := by rw [length_drop]; omega
    rw [if_neg (fun h => hle h.2), if_neg hlist]
    exact ⟨hs, rfl⟩

lemma follows_byte : Mirrors b (byteAt b) byte Any := by
  have hbyte : byte = (do
      match ← take 1 with
      | x :: _ => pure x
      | [] => ObjCodec.fail "") := by
    funext p
    cases p <;> rfl
  rw [hbyte]
  refine (follows_take hb 1).bind fun s hlen => ?_
  cases s with
  | nil => cases hlen
  | cons x rest => exact .pure trivial

lemma follows_fixed (n : Nat) :
    Mirrors b (fixedAt b n) (do let raw ← take n; pure (ofLeBytes raw))
      Any := by
  refine (follows_take hb n).bind fun raw hlen => ?_
  rw [if_pos hlen]
  exact .pure trivial

lemma follows_fixed8 (f : UInt64 → CfmlValue) :
    Mirrors b (do let n ← fixedAt b 8; pure (f (UInt64.ofNat n)))
      (do let n ← fixed8; pure (f n)) Any := by
  have hfixed : (do let n ← fixed8; pure (f n) : Reader CfmlValue) =
      (do let n ← (do let raw ← take 8; pure (ofLeBytes raw)); pure (f (UInt64.ofNat n))) := by
    simp [fixed8]
  rw [hfixed]
  exact (follows_fixed hb 8).map

lemma follows_lenLoop {ss : List Nat} (hss : ∀ s ∈ ss, s < 64) (n : Nat) :
    Mirrors b (lenLoopAt b ss n) (lenLoop ss n) fun n => n ≤ b.length := by
  induction ss generalizing n with
  | nil => exact follows_fail _
  | cons shift ss ih =>
    refine (follows_byte hb).bind fun x _ => ?_
    rw [if_pos (hss shift (by simp))]
    dsimp only
    split
    · refine .position_bind fun s hs => ?_
      have hleft : (b.drop s.i).length = b.length - s.i := length_drop
      generalize (n ||| ((x &&& 0x7f).toNat <<< shift) % 2 ^ 64) = m
      show InOrder b _ _ ∧ Answers b _ _ ((if m > (b.drop s.i).length then
        ObjCodec.fail "length exceeds data" else pure m : Reader Nat) (b.drop s.i)) _
      -- both sides compare with the bytes that are left
      rw [if_pos hs.1, hleft]
      split
      · exact ⟨hs, rfl⟩
      · exact ⟨hs, rfl, by show m ≤ b.length; omega⟩
    · exact ih (fun s hs => hss s (by simp [hs])) _

lemma follows_len : Mirrors b (lenAt b) len fun n => n ≤ b.length :=
  follows_lenLoop hb (by decide) 0

lemma follows_text : Mirrors b (textAt b) text Any := by
  refine (follows_len hb).bind fun n _ => (follows_take hb n).bind fun raw _ => ?_
  cases String.fromUTF8? ⟨raw.toArray⟩ with
  | some s => exact .pure trivial
  | none => exact follows_fail _

variable {r : Reader CfmlValue} {d : Dec CfmlValue}

lemma follows_structLoop (h : Mirrors b d r Any) (n : Nat) (m : ValueMap CfmlValue) :
    Mirrors b (structLoopAt b d n m) (structLoop r n m) Any := by
  induction n generalizing m with
  | zero => exact .pure trivial
  | succ n ih => exact (follows_text hb).bind fun k _ => h.bind fun v _ => ih _

omit hb in
lemma follows_rowLoop (h : Mirrors b d r Any) (cols : List String) (m : ValueMap CfmlValue) :
    Mirrors b (rowLoopAt d cols m) (rowLoop r cols m) Any := by
  induction cols generalizing m with
  | nil => exact .pure trivial
  | cons c cs ih => exact h.bind fun v _ => .note_bind trivial (ih _)

lemma follows_readDate : Mirrors b (readDateAt b) readDate Any := by
  have hdate : readDate = (do
      let secs ← (do let raw ← take 8; pure (ofLeBytes raw))
      let nanos ← (do let raw ← take 4; pure (ofLeBytes raw))
      let kind ← byte
      pure (.dateTime (fromEpoch (UInt64.ofNat secs).toInt64 nanos (kindOfByte kind)))) := by
    simp [readDate, fixed8]
  rw [hdate]
  exact (follows_fixed hb 8).bind fun secs _ => (follows_fixed hb 4).bind fun nanos _ =>
    (follows_byte hb).map

lemma follows_readQuery {held depth : Nat} {d : Nat → Dec CfmlValue} (hdepth : depth ≤ maxDepth)
    (hheld : held ≤ 3 * depth * b.length)
    (h : ∀ held, held ≤ 3 * (depth + 1) * b.length → Mirrors b (d held) r Any) :
    Mirrors b (readQueryAt b held d) (readQuery r) Any := by
  have hlevel : 3 * (depth + 1) * b.length = 3 * depth * b.length + 3 * b.length := by ring
  have hall : 3 * (depth + 1) * b.length ≤ 3 * (maxDepth + 1) * b.length :=
    Nat.mul_le_mul_right _ (by omega)
  refine (follows_len hb).bind fun ncols hncols => .note_bind ⟨hncols, by omega⟩ ?_
  refine ((follows_text hb).times ncols).bind fun cols _ => ?_
  refine (follows_len hb).bind fun nrows hnrows => .note_bind ⟨hnrows, by omega⟩ ?_
  have hrow := follows_rowLoop (h (held + ncols + nrows + ncols) (by omega)) cols []
  exact (Follows.times (.note_bind ⟨hncols, by omega⟩ hrow) nrows).map

lemma follows_value : ∀ (levels depth held : Nat), depth + levels = maxDepth + 1 →
    held ≤ 3 * depth * b.length →
    Mirrors b (valueAt b depth held) (value levels) Any := by
  intro levels
  induction levels with
  | zero =>
    intro depth held hdepth hheld
    rw [valueAt, dif_pos (by omega)]
    exact follows_fail _
  | succ levels ih =>
    intro depth held hdepth hheld
    have hlevel : 3 * (depth + 1) * b.length = 3 * depth * b.length + 3 * b.length := by ring
    have hall : 3 * (depth + 1) * b.length ≤ 3 * (maxDepth + 1) * b.length :=
      Nat.mul_le_mul_right _ (by omega)
    have hnext : ∀ held, held ≤ 3 * (depth + 1) * b.length →
        Mirrors b (valueAt b (depth + 1) held) (value levels) Any :=
      fun held => ih (depth + 1) held (by omega)
    rw [valueAt, dif_neg (by omega), value]
    have henter : (Event.enter depth).Safe b := show depth ≤ maxDepth by omega
    refine .note_bind henter ((follows_byte hb).bind fun tag _ => ?_)
    match tag.toNat with
    | 0 | 1 | 2 => exact .pure trivial
    | 3 => exact follows_fixed8 hb fun n => .int n.toInt64
    | 4 => exact follows_fixed8 hb fun n => .double ⟨n⟩
    | 5 => exact follows_fixed8 hb fun n => .timeSpan ⟨n⟩
    | 6 => exact (follows_text hb).map
    | 7 => exact (follows_len hb).bind fun n _ => (follows_take hb n).map
    | 8 =>
      refine (follows_len hb).bind fun n hn => .note_bind ⟨hn, by omega⟩ ?_
      exact ((hnext _ (by omega)).times n).map
    | 9 =>
      refine (follows_len hb).bind fun n hn => .note_bind ⟨hn, by omega⟩ ?_
      exact (follows_structLoop hb (hnext _ (by omega)) n []).map
    | 10 => exact follows_readQuery hb (by omega) hheld hnext
    | 11 => exact follows_readDate hb
    -- a tag that neither side knows
    | _ + 12 => exact follows_fail _

end

/-! ## Bytes behind a value -/

variable {levels : Nat} {r : Reader CfmlValue} {parts : List Bytes} {bs : Bytes} {α : Type}

lemma extends_fail (text : String) : Extends (ObjCodec.fail text : Reader α) := by
  rintro p x a l ⟨⟩

lemma extends_byte : Extends byte := by
  intro p x a l h
  cases p with
  | nil => cases h
  | cons y p =>
    cases h
    rfl

lemma extends_take (n : Nat) : Extends (take n) := by
  intro p x a l h
  rw [take] at h
  split at h
  · next hle =>
    cases h
    have hle' : n ≤ (p ++ x).length := by rw [length_append]; omega
    rw [take, if_pos hle', take_append_of_le_length hle, drop_append_of_le_length hle]
  · cases h

lemma extends_lenLoop (ss : List Nat) (n : Nat) : Extends (lenLoop ss n) := by
  induction ss generalizing n with
  | nil => exact extends_fail _
  | cons s ss ih =>
    refine extends_byte.bind fun y => ?_
    dsimp only
    split
    · -- more bytes behind only raise the limit of the count
      generalize (n ||| ((y &&& 0x7f).toNat <<< s) % 2 ^ 64) = m
      intro p x a l h
      have h : (if m > p.length then ObjCodec.fail "length exceeds data"
          else pure m : Reader Nat) p = .ok (a, l) := h
      show (if m > (p ++ x).length then ObjCodec.fail "length exceeds data" else
        pure m : Reader Nat)
        (p ++ x) = _
      split at h
      · cases h
      · cases h
        rw [if_neg (by rw [length_append]; omega)]
        rfl
    · exact ih _

lemma extends_len : Extends len := extends_lenLoop _ _

lemma extends_text : Extends text := by
  refine extends_len.bind fun n => (extends_take n).bind fun raw => ?_
  cases String.fromUTF8? ⟨raw.toArray⟩ with
  | some s => exact .pure _
  | none => exact extends_fail _

lemma extends_fixed8 : Extends fixed8 := (extends_take 8).bind fun _ => .pure _

lemma extends_structLoop (h : Extends r) (n : Nat) (m : ValueMap CfmlValue) :
    Extends (structLoop r n m) := by
  induction n generalizing m with
  | zero => exact .pure _
  | succ n ih => exact extends_text.bind fun k => h.bind fun v => ih _

lemma extends_rowLoop (h : Extends r) (cols : List String) (m : ValueMap CfmlValue) :
    Extends (rowLoop r cols m) := by
  induction cols generalizing m with
  | nil => exact .pure _
  | cons c cs ih => exact h.bind fun v => ih _

lemma extends_readQuery (h : Extends r) : Extends (readQuery r) :=
  extends_len.bind fun ncols => (extends_text.times ncols).bind fun cols =>
    extends_len.bind fun nrows => ((extends_rowLoop h cols []).times nrows).bind fun _ => .pure _

lemma extends_value (levels : Nat) : Extends (value levels) := by
  induction levels with
  | zero => exact extends_fail _
  | succ levels ih =>
    refine extends_byte.bind fun tag => ?_
    split
    iterate 3 exact .pure _
    iterate 3 exact extends_fixed8.bind fun _ => .pure _
    · exact extends_text.bind fun _ => .pure _
    · exact extends_len.bind fun n => (extends_take n).bind fun _ => .pure _
    · exact extends_len.bind fun n => (ih.times n).bind fun _ => .pure _
    · exact extends_len.bind fun n => (extends_structLoop ih n []).bind fun _ => .pure _
    · exact extends_readQuery ih
    · exact extends_fixed8.bind fun _ => (extends_take 4).bind fun _ =>
        extends_byte.bind fun _ => .pure _
    · exact extends_fail _

/-! ## An encoding is read whole or not at all -/

lemma spans_byte (x : UInt8) : Spans byte [x] (· = x) := by
  rintro rest _ _ ⟨⟩
  exact ⟨rfl, rfl⟩

lemma spans_tag {f : UInt8 → Reader α} {tag : UInt8} {P : α → Prop}
    (h : Spans (f tag) bs P) : Spans (byte >>= f) (tag :: bs) P := by
  show Spans (byte >>= f) ([tag] ++ bs) P
  exact (spans_byte tag).bind fun _ hx => hx ▸ h

lemma spans_take (bs : Bytes) : Spans (take bs.length) bs Any := by
  intro rest a l h
  rw [reads_take bs rest] at h
  cases h
  exact ⟨rfl, trivial⟩

lemma spans_takeOf {n : Nat} (bs : Bytes) (h : bs.length = n) : Spans (take n) bs Any :=
  h ▸ spans_take bs

lemma spans_fixed8 (n : Nat) : Spans fixed8 (leBytes 8 n) fun _ => True :=
  (spans_takeOf _ (length_leBytes 8 n)).map

lemma spans_lenLoop (ss : List Nat) (n m : Nat) : Spans (lenLoop ss n) (putLen m) Any := by
  induction ss generalizing n m with
  | nil =>
    intro rest a l h
    cases h
  | cons s ss ih =>
    rw [putLen_eq]
    split
    · next hm =>
      obtain ⟨-, hlast, -, -⟩ := varint_byte ⟨m, hm⟩
      refine spans_tag ?_
      dsimp only at hlast ⊢
      rw [if_pos hlast]
      intro rest a l h
      obtain ⟨left, rest', hget, h⟩ := bind_eq_ok h
      cases hget
      split at h
      · cases h
      · cases h
        exact ⟨rfl, trivial⟩
    · obtain ⟨-, -, -, hmore⟩ := varint_byte ⟨m % 128, Nat.mod_lt _ (by decide)⟩
      refine spans_tag ?_
      dsimp only at hmore ⊢
      rw [if_neg hmore]
      exact ih _ _

lemma spans_len (n : Nat) : Spans len (putLen n) fun a => n < 2 ^ 64 → a = n := by
  intro rest a l h
  refine ⟨(spans_lenLoop _ _ _ rest a l h).1, fun hn => ?_⟩
  -- with enough bytes behind it the count is known to be read, and they change nothing
  have hext := extends_len _ (replicate n 0) a l h
  rw [append_assoc, len_putLen hn (by simp)] at hext
  exact (Prod.mk.inj (Except.ok.inj hext)).1.symm

lemma spans_text {s : String} (hs : (stringBytes s).length < 2 ^ 64) :
    Spans text (putText s) Any := by
  refine (spans_len _).bind fun n hn => ?_
  obtain rfl := hn hs
  intro rest a l h
  obtain ⟨raw, m, htake, hdec⟩ := bind_eq_ok h
  obtain ⟨rfl, -⟩ := spans_take _ rest raw m htake
  cases hutf : String.fromUTF8? ⟨raw.toArray⟩ with
  | some t =>
    rw [hutf] at hdec
    cases hdec
    exact ⟨rfl, trivial⟩
  | none =>
    rw [hutf] at hdec
    cases hdec

lemma spans_structLoop (h : ∀ bs ∈ parts, ∃ k vb, bs = putText k ++ vb ∧
      (stringBytes k).length < 2 ^ 64 ∧
      Spans r vb Any) (m : ValueMap CfmlValue) :
    Spans (structLoop r parts.length m) parts.flatten Any := by
  induction parts generalizing m with
  | nil => exact .pure m
  | cons bs parts ih =>
    obtain ⟨k, vb, rfl, hk, hvb⟩ := h bs (by simp)
    rw [flatten_cons, append_assoc]
    exact (spans_text hk).bind fun _ _ => hvb.bind fun _ _ =>
      ih (fun bs hbs => h bs (by simp [hbs])) _

lemma spans_rowLoop {cols : List String} (hlen : parts.length = cols.length)
    (h : ∀ bs ∈ parts, Spans r bs Any)
    (m : ValueMap CfmlValue) : Spans (rowLoop r cols m) parts.flatten Any := by
  induction cols generalizing parts m with
  | nil =>
    rw [eq_nil_of_length_eq_zero hlen]
    exact .pure m
  | cons c cols ih =>
    cases parts with
    | nil => cases hlen
    | cons bs parts =>
      rw [flatten_cons]
      exact (h bs (by simp)).bind fun _ _ =>
        ih (Nat.succ.inj hlen) (fun bs hbs => h bs (by simp [hbs])) _

/-! ## What the encoder writes -/

lemma ok_of_map {ε β : Type} {x : Except ε α} {f : α → β} {y : β}
    (h : (do let a ← x; pure (f a)) = .ok y) : ∃ a, x = .ok a ∧ f a = y := by
  cases x with
  | error e => cases h
  | ok a => exact ⟨a, rfl, Except.ok.inj h⟩

lemma length_le_flatten_of_pos (h : ∀ bs ∈ parts, 0 < bs.length) :
    parts.length ≤ parts.flatten.length :=
  length_le_flatten (P := fun _ bs => 0 < bs.length) (fun _ _ hpos => hpos) (forall₂_same.2 h)

lemma length_le_of_mem_flatten (h : bs ∈ parts) :
    bs.length ≤ parts.flatten.length := (sublist_flatten_of_mem h).length_le

/-- What is written for a value: at least its tag, and read whole if at all. -/
def Framed (levels : Nat) (bs : Bytes) : Prop :=
  0 < bs.length ∧ (bs.length < 2 ^ 64 → Spans (value levels) bs Any)

lemma framed_array (h : ∀ bs ∈ parts, Framed levels bs) :
    Framed (levels + 1) (8 :: putLen parts.length ++ parts.flatten) := by
  refine ⟨by simp, fun hsize => ?_⟩
  have hcount := length_le_flatten_of_pos fun bs hbs => (h bs hbs).1
  simp only [cons_append, length_cons, length_append] at hsize
  rw [cons_append, value]
  refine spans_tag ((spans_len _).bind fun n hn => ?_)
  obtain rfl := hn (by omega)
  refine (Spans.times (P := Any) fun bs hbs => (h bs hbs).2 ?_).map
  have := length_le_of_mem_flatten hbs
  omega

lemma framed_struct (h : ∀ bs ∈ parts, ∃ k vb, bs = putText k ++ vb ∧ Framed levels vb) :
    Framed (levels + 1) (9 :: putLen parts.length ++ parts.flatten) := by
  refine ⟨by simp, fun hsize => ?_⟩
  have hpos : ∀ bs ∈ parts, 0 < bs.length := by
    intro bs hbs
    obtain ⟨k, vb, rfl, hvb⟩ := h bs hbs
    rw [length_append]
    exact Nat.add_pos_right _ hvb.1
  have hcount := length_le_flatten_of_pos hpos
  simp only [cons_append, length_cons, length_append] at hsize
  rw [cons_append, value]
  refine spans_tag ((spans_len _).bind fun n hn => ?_)
  obtain rfl := hn (by omega)
  refine (spans_structLoop (fun bs hbs => ?_) []).map
  obtain ⟨k, vb, rfl, hvb⟩ := h bs hbs
  have hle := length_le_of_mem_flatten hbs
  rw [length_append] at hle
  have htext : (stringBytes k).length ≤ (putText k).length := by
    rw [putText, putBytes, length_append]
    exact Nat.le_add_left _ _
  exact ⟨k, vb, rfl, by omega, hvb.2 (by omega)⟩

lemma spans_noRows (n : Nat) : Spans (times (rowLoop r [] []) n) [] Any := by
  have hrow : ∀ bs ∈ replicate n ([] : Bytes), Spans (rowLoop r [] []) bs Any :=
    fun bs hbs => (eq_of_mem_replicate hbs) ▸ Spans.pure []
  have h := Spans.times hrow
  rw [length_replicate, flatten_replicate_nil] at h
  exact fun rest a l hok => ⟨(h rest a l hok).1, trivial⟩

lemma framed_query {columns : List String} {rows : List Bytes} {count : Nat}
    (hcount : rows.length = count)
    (hrows : ∀ row ∈ rows, ∃ cells : List Bytes, row = cells.flatten ∧
      cells.length = columns.length ∧ ∀ bs ∈ cells, Framed levels bs) :
    Framed (levels + 1)
    (10 :: putLen columns.length ++ columns.flatMap putText ++ (putLen count ++ rows.flatten)) := by
  refine ⟨by simp, fun hsize => ?_⟩
  have htexts : columns.length ≤ (columns.flatMap putText).length := by
    have hpos : ∀ bs ∈ columns.map putText, 0 < bs.length := by
      intro bs hbs
      obtain ⟨c, -, rfl⟩ := mem_map.1 hbs
      rw [putText, putBytes, length_append]
      exact Nat.add_pos_left (length_pos_iff.2 (putLen_ne_nil _)) _
    have h := length_le_flatten_of_pos hpos
    rwa [length_map, ← flatMap_def] at h
  simp only [cons_append, length_cons, length_append] at hsize
  rw [cons_append, cons_append, value, append_assoc]
  refine spans_tag ((spans_len _).bind fun n hn => ?_)
  obtain rfl := hn (by omega)
  have hcols : Spans (times text columns.length) (columns.flatMap putText)
      fun cols => cols.length = columns.length := by
    have htext : ∀ bs ∈ columns.map putText, Spans text bs Any := by
      intro bs hbs
      have hle := length_le_of_mem_flatten hbs
      obtain ⟨c, hc, rfl⟩ := mem_map.1 hbs
      rw [← flatMap_def, putText, putBytes, length_append] at hle
      exact spans_text (by omega)
    have h := Spans.times htext
    rwa [length_map, ← flatMap_def] at h
  refine hcols.bind fun cols hlen => (spans_len _).bind fun nrows hnrows => ?_
  cases hnil : columns with
  | nil =>
    -- no cell is written, and none is read
    rw [hnil] at hlen hrows
    obtain rfl := eq_nil_of_length_eq_zero hlen
    have hempty : rows.flatten = [] := by
      rw [flatten_eq_nil_iff]
      intro row hrow
      obtain ⟨cells, rfl, hcells, -⟩ := hrows row hrow
      rw [eq_nil_of_length_eq_zero hcells, flatten_nil]
    rw [hempty]
    exact (spans_noRows nrows).map
  | cons c cs =>
    have hpos : ∀ row ∈ rows, 0 < row.length := by
      intro row hrow
      obtain ⟨cells, rfl, hcells, hframed⟩ := hrows row hrow
      have := length_le_flatten_of_pos fun bs hbs => (hframed bs hbs).1
      rw [hnil, length_cons] at hcells
      omega
    have hle := length_le_flatten_of_pos hpos
    obtain rfl := hnrows (by omega)
    rw [← hcount]
    refine (Spans.times (P := Any) fun row hrow => ?_).map
    obtain ⟨cells, rfl, hcells, hframed⟩ := hrows row hrow
    have hrowle := length_le_of_mem_flatten hrow
    refine spans_rowLoop (hcells.trans hlen.symm) (fun bs hbs => (hframed bs hbs).2 ?_) []
    have := length_le_of_mem_flatten hbs
    omega

lemma framed_leaf {tag : UInt8} (h : Spans (value (levels + 1)) (tag :: bs) Any) :
    Framed (levels + 1) (tag :: bs) :=
  ⟨Nat.succ_pos _, fun _ => h⟩

lemma framed_null (levels : Nat) : Framed (levels + 1) [0] := framed_leaf (spans_tag (.pure _))

lemma framed_encodeMap (ih : ∀ {v : CfmlValue} {bs : Bytes}, enc levels v = .ok bs →
      Framed levels bs)
    {m : ValueMap CfmlValue} (h : encodeMap (enc levels) m = .ok bs) : Framed (levels + 1) bs := by
  obtain ⟨parts, hparts, rfl⟩ := ok_of_map h
  rw [← Fallible.length_mapM hparts]
  refine framed_struct fun bs hbs => ?_
  obtain ⟨e, -, he⟩ := Fallible.exists_of_mem_mapM hparts hbs
  obtain ⟨vb, hvb, rfl⟩ := ok_of_map he
  exact ⟨e.1, vb, rfl, ih hvb⟩

lemma framed_encodeQuery (ih : ∀ {v : CfmlValue} {bs : Bytes}, enc levels v = .ok bs →
      Framed levels bs)
    (hnull : Framed levels [0]) {q : QueryData CfmlValue}
    (h : encodeQuery (enc levels) q = .ok bs) :
    Framed (levels + 1) bs := by
  obtain ⟨rows, hrows, rfl⟩ := ok_of_map h
  refine framed_query ((Fallible.length_mapM hrows).trans length_range) fun row hrow => ?_
  obtain ⟨r, -, hr⟩ := Fallible.exists_of_mem_mapM hrows hrow
  rw [encodeRow] at hr
  split at hr
  · cases hr
  · obtain ⟨cells, hcells, rfl⟩ := ok_of_map hr
    refine ⟨cells, rfl, Fallible.length_mapM hcells, fun bs hbs => ?_⟩
    obtain ⟨c, -, hc⟩ := Fallible.exists_of_mem_mapM hcells hbs
    rw [encodeCell] at hc
    split at hc
    · exact ih hc
    · cases hc
      exact hnull

lemma enc_framed : ∀ {v : CfmlValue} {bs : Bytes}, enc levels v = .ok bs → Framed levels bs := by
  induction levels with
  | zero =>
    intro v bs h
    cases h
  | succ levels ih =>
    intro v bs h
    rw [enc] at h
    split at h
    · cases h
      exact framed_null levels
    iterate 2
      · cases h
        exact framed_leaf (spans_tag (.pure _))
    iterate 3
      · cases h
        exact framed_leaf (spans_tag (spans_fixed8 _).map)
    · cases h
      refine ⟨Nat.succ_pos _, fun hsize => spans_tag (spans_text ?_).map⟩
      rw [putText, putBytes, length_cons, length_append] at hsize
      omega
    · cases h
      refine ⟨Nat.succ_pos _, fun hsize => spans_tag ((spans_len _).bind fun n hn => ?_)⟩
      rw [putBytes, length_cons, length_append] at hsize
      obtain rfl := hn (by omega)
      exact (spans_take _).map
    · obtain ⟨parts, hparts, rfl⟩ := ok_of_map h
      rw [← Fallible.length_mapM hparts]
      refine framed_array fun bs hbs => ?_
      obtain ⟨x, -, hx⟩ := Fallible.exists_of_mem_mapM hparts hbs
      exact ih hx
    iterate 2 exact framed_encodeMap ih h
    · refine framed_encodeQuery ih ?_ h
      -- at the deepest level a null cell is written but nothing is read
      cases levels with
      | zero => exact ⟨by decide, fun _ rest a l hok => by cases hok⟩
      | succ levels => exact framed_null levels
    · cases h
      rw [append_assoc, cons_append]
      refine framed_leaf (spans_tag ?_)
      exact (spans_fixed8 _).bind fun _ _ =>
        (spans_takeOf _ (length_leBytes 4 _)).bind fun _ _ => (spans_byte _).map
    iterate 2
      · cases h
        exact framed_null levels

lemma decodeRun_spec {b : Bytes} (hb : b.length < 2 ^ 64) : (∀ e ∈ (decodeRun b).2.log, e.Safe b) ∧
      match (decodeRun b).1 with
      | .ok v => (decodeRun b).2.i = b.length ∧ value (maxDepth + 1) b = .ok (v, [])
      | .error (.error _) => True
      | .error .panic => False := by
  obtain ⟨hin, hans⟩ := follows_value hb (maxDepth + 1) 0 0 (Nat.zero_add _) (Nat.zero_le _) ⟨0, []⟩
    ⟨Nat.zero_le _, fun _ he => by cases he⟩
  rw [decodeRun, decodeAt, bind_apply]
  rcases hv : valueAt b 0 0 ⟨0, []⟩ with ⟨_ | v, s⟩
  all_goals rw [hv] at hin hans
  · rename_i halt
    refine ⟨hin.2, ?_⟩
    cases halt with
    | error e => trivial
    | panic => exact hans
  · have hlast : (do
        let i ← position
        if i ≠ b.length then Decoder.fail (toString (b.length - i) ++ " unexpected trailing bytes")
        else pure v : Dec CfmlValue) s =
        if s.i = b.length then (.ok v, s)
        else (.error (.error (toString (b.length - s.i) ++ " unexpected trailing bytes")), s) := by
      rw [bind_apply]
      dsimp only [position]
      by_cases hend : s.i = b.length
      · rw [if_pos hend, if_neg (not_not.2 hend)]
        rfl
      · rw [if_neg hend, if_pos hend]
        rfl
    dsimp only
    rw [hlast]
    split
    · next hend =>
      have hok := hans.1
      rw [hend, drop_length] at hok
      exact ⟨hin.2, hend, hok⟩
    · exact ⟨hin.2, trivial⟩

/-- No name of more than 128 bytes is given to a row. -/
def ShortNames (b : Bytes) : Prop := ∀ n, .copy n ∈ (decodeRun b).2.log → n = 0

lemma copied_eq_zero {log : List Event} (h : ∀ n, .copy n ∈ log → n = 0) : copied log = 0 := by
  induction log with
  | nil => rfl
  | cons e log ih =>
    have hrest := ih fun n hn => h n (mem_cons_of_mem _ hn)
    cases e with
    | copy n => rw [copied, hrest, h n mem_cons_self]
    | read | enter | reserve => exact hrest

/-- What is asked of a run of the decoder: it returns, with a value or an error, has read inside the
slice, was never deeper than its limit, reserved no more at a time than the slice is long and no
more altogether than that at every level, copied no more of names than there is in the slice, and
accepts only what it has read to the end. -/
structure SafeRun (b : Bytes) : Prop where
  returns : (∃ v, (decodeRun b).1 = .ok v ∧ (decodeRun b).2.i = b.length) ∨
    ∃ text, (decodeRun b).1 = .error (.error text)
  events : ∀ e ∈ (decodeRun b).2.log, e.Safe b
  names : copied (decodeRun b).2.log ≤ b.length

/-- A query with one column, whose name has 129 bytes, and three empty rows. -/
def longNamed : Bytes := [10, 1, 0x81, 1] ++ List.replicate 129 97 ++ [3, 0, 0, 0]

end RustCfml.ObjCodec
