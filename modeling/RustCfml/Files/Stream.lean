import RustCfml.Files.Charset

/-!
# When a stream is decoded as its bytes are together

UTF-16 and the single-byte sets are always cut well. UTF-8 is not: **a wrong byte anywhere in the
pending bytes makes `decodable_prefix_len` decode through to their end**, so a character that the
end of the block breaks is replaced although the next block has the rest of it.
-/

namespace RustCfml.Files

open List StreamDecoder

variable {d : StreamDecoder} {block after : List UInt8}

lemma receive_sniffed (h : d.sniffed = true) :
    d.receive block = (⟨d.cs, d.tail ++ block, true⟩, true) := by
  simp [receive, h]

lemma pushInto_eq (d : StreamDecoder) (block : List UInt8) :
    d.pushInto block = d.pushSlow block := by
  unfold pushInto
  split
  next hfast =>
    obtain ⟨cs, tail, sniffed⟩ := d
    simp [List.isEmpty_iff] at hfast
    obtain ⟨⟨rfl, rfl⟩, rfl⟩ := hfast
    have hslow : pushSlow ⟨.utf8, [], true⟩ block =
        drain ⟨.utf8, block, true⟩ := by
      rw [pushSlow, receive_sniffed rfl, nil_append]
    rw [hslow]
    cases hv : Utf8.validate block with
    | ok => simp [drain, decodablePrefixLen, hv, decodeWhole]
    | incomplete valid =>
      simp [drain, decodablePrefixLen, hv, decodeWhole]
    | invalid => rfl
  next => rfl

lemma whole_receive (d : StreamDecoder) (block after : List UInt8) :
    d.whole (block ++ after) = (d.receive block).1.whole after := by
  obtain ⟨cs, tail, sniffed⟩ := d
  unfold receive
  dsimp only
  split
  next h =>
    cases hs : sniffed with
    | true => simp [whole]
    | false =>
      rw [hs, Bool.false_or] at h
      simp [whole, decode_singleByte h]
  next h =>
    obtain ⟨rfl, hcs⟩ : sniffed = false ∧ cs.singleByte = false := by simpa using h
    split
    next bomCs skip hmark =>
      obtain ⟨hall, hskip⟩ := sniffBom_append hmark after
      rw [append_assoc] at hall
      have hdrop : (tail ++ (block ++ after)).drop skip = (tail ++ block).drop skip ++ after := by
        rw [← append_assoc, drop_append_of_le_length hskip]
      simp [whole, decode_of_mark hcs hall, hdrop]
    next hnone =>
      split
      next hstart =>
        have hall := sniffBom_append_none hnone hstart after
        rw [append_assoc] at hall
        simp [whole, decode_of_noMark cs hall]
      next => simp [whole]

lemma sniffed_of_receive (h : (d.receive block).2 = true) : (d.receive block).1.sniffed = true := by
  unfold receive at h ⊢
  dsimp only at h ⊢
  split
  · rfl
  next hcs =>
    rw [if_neg hcs] at h
    split
    · rfl
    next hmark =>
      rw [hmark] at h
      dsimp only at h
      split
      · rfl
      next hstart =>
        rw [if_neg hstart] at h
        cases h

/-! ## The cut -/

/-- What the cut leaves is the text of the two parts. -/
def CutsAt (cs : Charset) (tail after : List UInt8) (n : Nat) : Prop :=
  decodeWhole cs (tail ++ after) = decodeWhole cs (tail.take n) ++
    decodeWhole cs (tail.drop n ++ after)

lemma cutsAt_singleByte {cs : Charset} (h : cs.singleByte = true) (tail after : List UInt8)
    (n : Nat) :
    CutsAt cs tail after n := by
  unfold CutsAt
  conv_lhs => rw [← take_append_drop n tail, append_assoc]
  cases cs with
  | latin1 | cp1252 | usAscii => exact map_append
  | utf8 | utf16Bom | utf16Be | utf16Le => cases h

lemma decodeUtf16_at {bigEndian : Bool} {tail : List UInt8} {n : Nat} (hn : n ≤ tail.length)
    (heven : n % 2 = 0) (hpair : ∀ u ∈ (Utf16.units bigEndian (tail.take n)).getLast?,
      Utf16.IsHigh u →
      ∀ v ∈ (Utf16.units bigEndian (tail.drop n ++ after)).head?, ¬ Utf16.IsLow v) :
    decodeUtf16 (tail ++ after) bigEndian =
      decodeUtf16 (tail.take n) bigEndian ++ decodeUtf16 (tail.drop n ++ after) bigEndian := by
  have htail : tail ++ after = tail.take n ++ (tail.drop n ++ after) := by
    rw [← append_assoc, take_append_drop]
  rw [htail, decodeUtf16, Utf16.units_append bigEndian _ _ (by rwa [length_take_of_le hn]),
    Utf16.lossy_append _ _ hpair, decodeUtf16, decodeUtf16]

/-- **UTF-16 is cut well.** Either the unit before the cut is no high surrogate, or the one after
    it is. -/
theorem decodeUtf16_cut (bigEndian : Bool) (tail after : List UInt8) :
    decodeUtf16 (tail ++ after) bigEndian =
      decodeUtf16 (tail.take (utf16PrefixLen bigEndian tail)) bigEndian ++
        decodeUtf16 (tail.drop (utf16PrefixLen bigEndian tail) ++ after) bigEndian := by
  obtain ⟨whole, hwhole⟩ : ∃ whole, whole = tail.length - tail.length % 2 := ⟨_, rfl⟩
  rw [utf16PrefixLen, ← hwhole]
  by_cases htwo : 2 ≤ whole
  · obtain ⟨a, b, rest, hdrop⟩ : ∃ a b rest, tail.drop (whole - 2) = a :: b :: rest := by
      have hlong : 2 ≤ (tail.drop (whole - 2)).length := by
        rw [length_drop]
        omega
      match tail.drop (whole - 2), hlong with
      | a :: b :: rest, _ => exact ⟨a, b, rest, rfl⟩
    rw [if_pos htwo, hdrop]
    dsimp only
    by_cases hhigh : Utf16.IsHigh (Utf16.unit bigEndian a b)
    · rw [if_pos hhigh]
      -- the last unit is held back: the rest starts with a high surrogate
      refine decodeUtf16_at (by omega) (by omega) ?_
      intro u _ _ v hv
      rw [hdrop, cons_append, cons_append, Utf16.units] at hv
      obtain rfl := Option.some.inj hv
      exact hhigh.not_low
    · rw [if_neg hhigh]
      refine decodeUtf16_at (by omega) (by omega) ?_
      intro u hu hh
      have htake : tail.take whole = tail.take (whole - 2) ++ [a, b] := by
        have hsum : whole = (whole - 2) + 2 := by omega
        conv_lhs => rw [hsum, take_add, hdrop]
        rfl
      have hlast : Utf16.units bigEndian (tail.take whole) =
          Utf16.units bigEndian (tail.take (whole - 2)) ++ [Utf16.unit bigEndian a b] := by
        rw [htake, Utf16.units_append bigEndian _ _ (by rw [length_take_of_le (by omega)]; omega)]
        rfl
      rw [hlast, getLast?_concat] at hu
      obtain rfl := Option.some.inj hu
      exact absurd hh hhigh
  · rw [if_neg htwo]
    obtain rfl : whole = 0 := by omega
    refine decodeUtf16_at (Nat.zero_le _) rfl ?_
    intro u hu
    simp [Utf16.units] at hu

/-- The pending bytes have something wrong in them, and end inside a character that goes on. -/
def Breaks (cs : Charset) (tail after : List UInt8) : Prop :=
  cs = .utf8 ∧ Utf8.validate tail = .invalid ∧ Utf8.Continues tail after

lemma cutsAt_prefix (h : ¬ Breaks d.cs d.tail after) :
    CutsAt d.cs d.tail after d.decodablePrefixLen := by
  obtain ⟨cs, tail, sniffed⟩ := d
  cases cs with
  | latin1 | cp1252 | usAscii => exact cutsAt_singleByte rfl tail after _
  | utf16Be | utf16Bom => exact decodeUtf16_cut true tail after
  | utf16Le => exact decodeUtf16_cut false tail after
  | utf8 =>
    have hcut : ∀ n, ¬ Utf8.Continues (tail.take n) (tail.drop n ++ after) →
        CutsAt .utf8 tail after n := by
      intro n hn
      have hparts := Utf8.lossy_append_of_not hn
      rw [← append_assoc, take_append_drop] at hparts
      exact hparts
    have hlen : ∀ b, ¬ Utf8.Continues tail b → ¬ Utf8.Continues (tail.take tail.length) b := by
      intro b hb
      rwa [take_length]
    unfold decodablePrefixLen
    dsimp only
    cases hv : Utf8.validate tail with
    | ok =>
      apply hcut
      exact hlen _ (Utf8.not_continues_of_ok hv _)
    | incomplete validUpTo =>
      apply hcut
      exact Utf8.not_continues_take hv _
    | invalid =>
      apply hcut
      apply hlen
      rw [drop_length, nil_append]
      exact fun hc => h ⟨rfl, hv, hc⟩

lemma length_cut_lt (h : Breaks d.cs d.tail after) : (decodeWhole d.cs (d.tail ++ after)).length <
      (d.drain.2 ++ decodeWhole d.cs (d.drain.1.tail ++ after)).length := by
  obtain ⟨cs, tail, sniffed⟩ := d
  obtain ⟨hcs, hv, hc⟩ := h
  dsimp only at hcs hv hc
  subst hcs
  have hsplit : decodablePrefixLen ⟨.utf8, tail, sniffed⟩ =
    tail.length := by simp [decodablePrefixLen, hv]
  simpa [drain, hsplit, decodeWhole] using Utf8.length_lossy_append hc

/-- The block leaves bytes of which something is wrong and the last character goes on after it. -/
def StreamDecoder.Careless (d : StreamDecoder) (block after : List UInt8) : Prop :=
  (d.receive block).2 = true ∧ Breaks (d.receive block).1.cs (d.receive block).1.tail after

lemma whole_of_sniffed (h : d.sniffed = true) (after : List UInt8) :
    d.whole after = decodeWhole d.cs (d.tail ++ after) := by simp [whole, h]

lemma pushInto_whole (d : StreamDecoder) (block after : List UInt8) :
    (d.pushInto block).2 ++ (d.pushInto block).1.whole after =
      if (d.receive block).2 then
        (d.receive block).1.drain.2 ++
        decodeWhole (d.receive block).1.cs ((d.receive block).1.drain.1.tail ++ after)
      else (d.receive block).1.whole after := by
  rw [pushInto_eq, pushSlow]
  have hsniffed := @sniffed_of_receive d block
  generalize d.receive block = r at hsniffed
  obtain ⟨d', ready⟩ := r
  cases ready with
  | false => rfl
  | true =>
    have hdrained : d'.drain.1.sniffed = true := hsniffed rfl
    dsimp only
    rw [whole_of_sniffed hdrained]
    rfl

lemma whole_eq (h : ¬ d.Careless block after) :
    d.whole (block ++ after) = (d.pushInto block).2 ++ (d.pushInto block).1.whole after := by
  rw [pushInto_whole, whole_receive]
  split
  next hready =>
    rw [whole_of_sniffed (sniffed_of_receive hready)]
    exact cutsAt_prefix fun hb => h ⟨hready, hb⟩
  next => rfl

lemma length_whole_lt (h : d.Careless block after) : (d.whole (block ++ after)).length <
      ((d.pushInto block).2 ++ (d.pushInto block).1.whole after).length := by
  obtain ⟨hready, hbreaks⟩ := h
  rw [pushInto_whole, whole_receive, if_pos hready, whole_of_sniffed (sniffed_of_receive hready)]
  exact length_cut_lt hbreaks

/-- While the mark is waited for, the bytes in hand have none. -/
def StreamDecoder.Sound (d : StreamDecoder) : Prop := d.sniffed = false → sniffBom d.tail = none

lemma sound_new (cs : Charset) : (StreamDecoder.new cs).Sound := fun _ => rfl

lemma sound_receive (d : StreamDecoder) (block : List UInt8) : (d.receive block).1.Sound := by
  unfold receive
  dsimp only
  split
  · exact nofun
  · split
    · exact nofun
    next hnone =>
      split
      · exact nofun
      · exact fun _ => hnone

lemma sound_pushInto (d : StreamDecoder) (block : List UInt8) : (d.pushInto block).1.Sound := by
  rw [pushInto_eq, pushSlow]
  have hsound := sound_receive d block
  have hsniffed := @sniffed_of_receive d block
  generalize d.receive block = r at hsound hsniffed
  obtain ⟨d', ready⟩ := r
  cases ready with
  | false => exact hsound
  | true =>
    have hdrained : d'.drain.1.sniffed = true := hsniffed rfl
    intro hwait
    rw [hdrained] at hwait
    cases hwait

lemma finish_eq (h : d.Sound) : d.finish = d.whole [] := by
  have hwhole : d.whole [] = decodeWhole d.cs d.tail := by
    unfold whole
    rw [append_nil]
    split
    · rfl
    next hwait => exact decode_of_noMark d.cs (h (by simpa using hwait))
  rw [hwhole]
  unfold finish
  split
  next hempty => rw [List.isEmpty_iff.1 hempty, decodeWhole_nil]
  next => rfl

def StreamDecoder.Tidy (d : StreamDecoder) : List (List UInt8) → Prop
  | [] => True
  | block :: blocks => ¬ d.Careless block blocks.flatten ∧ (d.pushInto block).1.Tidy blocks

lemma length_whole_le (h : d.Sound) (blocks : List (List UInt8)) :
    (d.whole blocks.flatten).length ≤ (d.text blocks).length := by
  induction blocks generalizing d with
  | nil =>
    rw [text, finish_eq h]
    exact le_rfl
  | cons block blocks ih =>
    have hle := ih (sound_pushInto d block)
    rw [flatten_cons, text, length_append]
    by_cases hc : d.Careless block blocks.flatten
    · have hlt := length_whole_lt hc
      rw [length_append] at hlt
      omega
    · rw [whole_eq hc, length_append]
      omega

/-- **A stream is decoded as its bytes together exactly when no push is careless.** -/
theorem text_eq_iff (h : d.Sound) (blocks : List (List UInt8)) :
    d.text blocks = d.whole blocks.flatten ↔ d.Tidy blocks := by
  induction blocks generalizing d with
  | nil =>
    rw [text, finish_eq h]
    exact iff_of_true rfl trivial
  | cons block blocks ih =>
    have hsound := sound_pushInto d block
    rw [flatten_cons, text, Tidy, ← ih hsound]
    by_cases hc : d.Careless block blocks.flatten
    · -- the text is too long, and stays so
      refine iff_of_false (fun heq => ?_) fun hno => hno.1 hc
      have hlt := length_whole_lt hc
      have hle := length_whole_le hsound blocks
      rw [← heq, length_append, length_append] at hlt
      omega
    · rw [whole_eq hc, append_cancel_left_eq]
      exact ⟨fun heq => ⟨hc, heq⟩, And.right⟩

lemma whole_new (cs : Charset) (bytes : List UInt8) :
    (StreamDecoder.new cs).whole bytes = decode bytes cs := rfl

end RustCfml.Files
