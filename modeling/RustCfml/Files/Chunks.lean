import RustCfml.Files.Stream
import RustCfml.Lib.Pieces

/-!
# The chunks of a file loop (`cfml-common/src/vfs.rs`, `loop file=`)

`chunksOf` says what the chunks of a text are without a buffer. **Whatever the blocks, the reader
yields the chunks of the text its decoder says** (`yields_chunksOf`): a chunk that the buffer has
whole is the first of any text that starts with the buffer (`cut_append`).
-/

namespace RustCfml.Files

open Pieces List

inductive FileChunking where
  | lines
  | chars (n : Nat) (positive : 1 ≤ n)

/-- The choice `cfloop_file_cursor_opts` makes from `characters=`, resolved to a number. -/
def cfloopFileChunking : Option Int → Except String FileChunking
  | none => .ok .lines
  | some n =>
    if h : 1 ≤ n then .ok (.chars n.toNat (by omega))
    else .error s!"cfloop file: characters must be 1 or more, got [{n}]"

def chunksOf : FileChunking → List Char → List (List Char)
  | .lines => lines
  | .chars n _ => chunks n

/-- Decoded text, and how much of it has been consumed. -/
structure ChunkBuf where
  text : List Char
  pos : Nat

def ChunkBuf.rest (b : ChunkBuf) : List Char := b.text.drop b.pos

/-- The next chunk of the unconsumed text and its length with its terminator. -/
def cut (chunking : FileChunking) (atEof : Bool) (rest : List Char) : Option (List Char × Nat) :=
  match chunking with
  | .lines =>
    match rest.findIdx? (· == '\n') with
    | some nl => some (stripCr (rest.take nl), nl + 1)
    | none => if atEof && !rest.isEmpty then some (rest, rest.length) else none
  | .chars n _ =>
    if n < rest.length then some (rest.take n, n)
    else if atEof && !rest.isEmpty then some (rest, rest.length)
    else none

def ChunkBuf.take (b : ChunkBuf) (chunking : FileChunking) (atEof : Bool) :
    Option (List Char × ChunkBuf) :=
  (cut chunking atEof b.rest).map fun found => (found.1, { b with pos := b.pos + found.2 })

def ChunkBuf.compact (b : ChunkBuf) : ChunkBuf :=
  if 0 < b.pos then ⟨b.text.drop b.pos, 0⟩ else b

def ChunkBuf.refill (b : ChunkBuf) (text : List Char) : ChunkBuf :=
  { b.compact with text := b.compact.text ++ text }

/-! ## The readers -/

structure Block where
  bytes : List UInt8
  nonempty : bytes ≠ []

structure StreamFileChunks where
  reader : List Block
  decoder : StreamDecoder
  buf : ChunkBuf
  chunking : FileChunking
  atEof : Bool

def StreamFileChunks.new (blocks : List Block) (cs : Charset) (chunking : FileChunking) :
    StreamFileChunks := ⟨blocks, .new cs, ⟨[], 0⟩, chunking, false⟩

def StreamFileChunks.nextChunk (s : StreamFileChunks) : Option (List Char) × StreamFileChunks :=
  match s.buf.take s.chunking s.atEof with
  | some (chunk, buf) => (some chunk, { s with buf })
  | none =>
    if s.atEof then (none, s)
    else
      match _hs : s.reader with
      | [] =>
        -- a read of nothing: the decoder gives up what it held back
        nextChunk { s with
          atEof := true
          decoder := { s.decoder with tail := [] }
          buf := s.buf.refill s.decoder.finish }
      | block :: reader =>
        nextChunk { s with
          reader
          decoder := (s.decoder.pushInto block.bytes).1
          buf := s.buf.refill (s.decoder.pushInto block.bytes).2 }
termination_by (if s.atEof then 0 else s.reader.length + 1)
decreasing_by
  · simp_all
  · simp_all

/-- `EagerChunks`: the whole text is in the buffer. -/
structure EagerChunks where
  buf : ChunkBuf
  chunking : FileChunking

def EagerChunks.new (content : List Char) (chunking : FileChunking) : EagerChunks :=
  ⟨⟨content, 0⟩, chunking⟩

def EagerChunks.nextChunk (s : EagerChunks) : Option (List Char) × EagerChunks :=
  match s.buf.take s.chunking true with
  | some (chunk, buf) => (some chunk, { s with buf })
  | none => (none, s)

/-- The chunks a loop gets from a reader until there are no more. -/
inductive Yields {σ : Type} (next : σ → Option (List Char) × σ) : σ → List (List Char) → Prop
  | stop {s : σ} (h : (next s).1 = none) : Yields next s []
  | more {s s' : σ} {chunk : List Char} {chunks : List (List Char)} (h : next s = (some chunk, s'))
      (hrest : Yields next s' chunks) : Yields next s (chunk :: chunks)

variable {chunking : FileChunking} {σ : Type} {text chunk : List Char}

lemma findIdx_newline {nl : Nat} (h : text.findIdx? (· == '\n') = some nl) :
    '\n' ∉ text.take nl ∧ text = text.take nl ++ '\n' :: text.drop (nl + 1) ∧ nl < text.length := by
  rw [findIdx?_eq_some_iff_getElem] at h
  obtain ⟨hlt, hnl, hbefore⟩ := h
  have hget : text[nl] = '\n' := by simpa using hnl
  refine ⟨?_, ?_, hlt⟩
  · intro hmem
    obtain ⟨i, hi, heq⟩ := getElem_of_mem hmem
    rw [length_take] at hi
    have := hbefore i (by omega)
    rw [getElem_take] at heq
    simp [heq] at this
  · conv_lhs => rw [← take_append_drop nl text, drop_eq_getElem_cons hlt, hget]

lemma cut_eq_none (h : cut chunking true text = none) : text = [] := by
  cases chunking with
  | lines | chars n hn =>
    rw [cut] at h
    split at h
    · cases h
    · simpa using h

variable {k : Nat} {next : σ → Option (List Char) × σ} {b : ChunkBuf} {atEof : Bool}

theorem chunksOf_cut (h : cut chunking true text = some (chunk, k)) :
    chunksOf chunking text = chunk :: chunksOf chunking (text.drop k) ∧ 1 ≤ k ∧
    k ≤ text.length := by
  cases chunking with
  | lines =>
    rw [cut] at h
    split at h
    next nl hfind =>
      cases h
      obtain ⟨hno, hsplit, hlt⟩ := findIdx_newline hfind
      refine ⟨?_, by omega, by omega⟩
      conv_lhs => rw [hsplit]
      exact lines_cons hno _
    next hfind =>
      split at h
      next hne =>
        cases h
        have hne : text ≠ [] := by simpa using hne
        have hno : '\n' ∉ text := by
          intro hmem
          rw [findIdx?_eq_none_iff] at hfind
          simpa using hfind '\n' hmem
        refine ⟨?_, length_pos_iff.2 hne, le_rfl⟩
        rw [drop_length]
        exact lines_last hne hno
      next => cases h
  | chars n hn =>
    rw [cut] at h
    split at h
    next hlong =>
      cases h
      refine ⟨?_, hn, by omega⟩
      exact chunks_of_le hn (by omega)
    next hshort =>
      split at h
      next hne =>
        cases h
        have hne : text ≠ [] := by simpa using hne
        refine ⟨?_, length_pos_iff.2 hne, le_rfl⟩
        rw [drop_length]
        obtain hlt | heq := Nat.lt_or_eq_of_le (Nat.le_of_not_lt hshort)
        · exact chunks_of_lt hne hlt
        · subst heq
          have hfirst := chunks_of_le hn (Nat.le_refl text.length)
          rw [take_length, drop_length] at hfirst
          exact hfirst
      next => cases h

lemma cut_append {rest : List Char} (h : cut chunking false rest = some (chunk, k))
    (text : List Char) :
    cut chunking true (rest ++ text) = some (chunk, k) ∧ k ≤ rest.length := by
  cases chunking with
  | lines =>
    rw [cut] at h
    split at h
    next nl hfind =>
      cases h
      obtain ⟨-, -, hlt⟩ := findIdx_newline hfind
      have hall : (rest ++ text).findIdx? (· == '\n') = some nl := by
        rw [findIdx?_append, hfind]
        rfl
      have htake : (rest ++ text).take nl = rest.take nl :=
        take_append_of_le_length (Nat.le_of_lt hlt)
      rw [cut, hall]
      dsimp only
      rw [htake]
      exact ⟨rfl, hlt⟩
    next => cases h
  | chars n hn =>
    rw [cut] at h
    split at h
    next hlong =>
      cases h
      rw [cut, if_pos (by rw [length_append]; omega), take_append_of_le_length (Nat.le_of_lt hlong)]
      exact ⟨rfl, Nat.le_of_lt hlong⟩
    next => cases h

/-! ## What the readers yield -/

lemma rest_refill (b : ChunkBuf) (text : List Char) : (b.refill text).rest = b.rest ++ text := by
  unfold ChunkBuf.refill ChunkBuf.compact ChunkBuf.rest
  split
  next => rfl
  next hpos =>
    have hzero : b.pos = 0 := by omega
    simp [hzero]

open StreamFileChunks

/-- The text a reader has still to hand out. -/
def StreamFileChunks.owed (s : StreamFileChunks) : List Char :=
  s.buf.rest ++ if s.atEof then [] else s.decoder.text (s.reader.map Block.bytes)

def HandsOut {σ : Type} (next : σ → Option (List Char) × σ) (owed : σ → List Char)
    (chunking : FileChunking) (s : σ) : Prop :=
  match cut chunking true (owed s) with
  | none => (next s).1 = none
  | some (chunk, k) => ∃ s', next s = (some chunk, s') ∧ owed s' = (owed s).drop k

/-- **A reader that hands out the first chunk each time yields the chunks of the text it owes.** -/
theorem yields_of_handsOut {owed : σ → List Char} (Good : σ → Prop)
    (hgood : ∀ s, Good s → HandsOut next owed chunking s) (hkeep : ∀ s, Good s → Good (next s).2) :
    ∀ (n : Nat) (s : σ), Good s → (owed s).length ≤ n →
    Yields next s (chunksOf chunking (owed s)) := by
  intro n
  induction n with
  | zero =>
    intro s hs hlen
    have hempty : owed s = [] := length_eq_zero_iff.1 (Nat.le_zero.1 hlen)
    have hout := hgood s hs
    rw [HandsOut, hempty] at hout
    rw [hempty]
    cases chunking with
    | lines | chars n hn => exact .stop hout
  | succ n ih =>
    intro s hs hlen
    have hout := hgood s hs
    unfold HandsOut at hout
    cases hcut : cut chunking true (owed s) with
    | none =>
      rw [hcut] at hout
      rw [cut_eq_none hcut]
      cases chunking with
      | lines | chars n hn => exact .stop hout
    | some found =>
      obtain ⟨chunk, k⟩ := found
      rw [hcut] at hout
      obtain ⟨s', hnext, howed⟩ := hout
      obtain ⟨hchunks, hk, hle⟩ := chunksOf_cut hcut
      have hs' : Good s' := by
        have := hkeep s hs
        rwa [hnext] at this
      have hrest := ih s' hs' (by rw [howed, length_drop]; omega)
      rw [howed] at hrest
      rw [hchunks]
      exact .more hnext hrest

lemma rest_take {b' : ChunkBuf} (h : b.take chunking atEof = some (chunk, b')) :
    ∃ k, cut chunking atEof b.rest = some (chunk, k) ∧ b'.rest = b.rest.drop k := by
  obtain ⟨⟨c, k⟩, hcut, heq⟩ := Option.map_eq_some_iff.1 h
  cases heq
  exact ⟨k, hcut, by simp [ChunkBuf.rest, drop_drop]⟩

lemma take_eq_none (h : b.take chunking atEof = none) : cut chunking atEof b.rest = none :=
  Option.map_eq_none_iff.1 h

lemma HandsOut.congr {owed : σ → List Char} {s s' : σ} (h : HandsOut next owed chunking s')
    (hnext : next s = next s') (howed : owed s = owed s') : HandsOut next owed chunking s := by
  unfold HandsOut at h ⊢
  rwa [howed, hnext]

lemma handsOut_nextChunk (s : StreamFileChunks) : HandsOut nextChunk owed s.chunking s ∧
      s.nextChunk.2.chunking = s.chunking := by
  induction s using nextChunk.induct with
  | case1 s chunk buf htake =>
    have hnext : s.nextChunk = (some chunk, { s with buf }) := by rw [nextChunk, htake]
    obtain ⟨k, hcut, hrest⟩ := rest_take htake
    refine ⟨?_, by rw [hnext]⟩
    obtain ⟨reader, decoder, buf0, chunking, atEof⟩ := s
    obtain ⟨hall, hle⟩ : cut chunking true (owed ⟨reader, decoder, buf0, chunking, atEof⟩) =
        some (chunk, k) ∧ k ≤ buf0.rest.length := by
      cases atEof with
      | true =>
        have hk := (chunksOf_cut hcut).2.2
        exact ⟨by simpa [owed] using hcut, hk⟩
      | false => exact cut_append hcut _
    rw [HandsOut, hall]
    refine ⟨_, hnext, ?_⟩
    dsimp only [owed]
    rw [hrest, drop_append_of_le_length hle]
  | case2 s htake heof =>
    have hnext : s.nextChunk = (none, s) := by
      rw [nextChunk, htake]
      simp [heof]
    refine ⟨?_, by rw [hnext]⟩
    have hcut := take_eq_none htake
    rw [heof] at hcut
    have howed : s.owed = s.buf.rest := by simp [owed, heof]
    rw [HandsOut, howed, hcut, hnext]
  | case3 s htake heof hreader ih =>
    have hnext : s.nextChunk = nextChunk { s with
        atEof := true
        decoder := { s.decoder with tail := [] }
        buf := s.buf.refill s.decoder.finish } := by
      conv_lhs => rw [nextChunk, htake]
      dsimp only
      rw [if_neg heof]
      split
      next => rfl
      next heq => cases hreader.symm.trans heq
    refine ⟨ih.1.congr hnext ?_, by rw [hnext]; exact ih.2⟩
    simp [owed, heof, hreader, rest_refill, StreamDecoder.text]
  | case4 s htake heof block reader hreader ih =>
    have hnext : s.nextChunk = nextChunk { s with
        reader
        decoder := (s.decoder.pushInto block.bytes).1
        buf := s.buf.refill (s.decoder.pushInto block.bytes).2 } := by
      conv_lhs => rw [nextChunk, htake]
      dsimp only
      rw [if_neg heof]
      split
      next heq => cases hreader.symm.trans heq
      next block' reader' heq =>
        cases hreader.symm.trans heq
        rfl
    refine ⟨ih.1.congr hnext ?_, by rw [hnext]; exact ih.2⟩
    simp [owed, heof, hreader, rest_refill, StreamDecoder.text]

/-- **The streaming reader yields the chunks of the text its decoder says.** -/
theorem yields_chunksOf (s : StreamFileChunks) :
    Yields nextChunk s (chunksOf s.chunking s.owed) := by
  refine yields_of_handsOut (fun s' => s'.chunking = s.chunking) ?_ ?_ _ s rfl le_rfl
  · rintro s' hs
    rw [← hs]
    exact (handsOut_nextChunk s').1
  · rintro s' hs
    rw [(handsOut_nextChunk s').2, hs]

/-- **The reader with the whole text in hand yields its chunks.** -/
theorem eager_yields_chunksOf (content : List Char) (chunking : FileChunking) :
    Yields EagerChunks.nextChunk (.new content chunking) (chunksOf chunking content) := by
  have hhands : ∀ s : EagerChunks,
    HandsOut EagerChunks.nextChunk (fun s => s.buf.rest) s.chunking s ∧
      s.nextChunk.2.chunking = s.chunking := by
    intro s
    unfold EagerChunks.nextChunk HandsOut
    cases htake : s.buf.take s.chunking true with
    | none =>
      rw [take_eq_none htake]
      simp [htake]
    | some found =>
      obtain ⟨chunk, buf⟩ := found
      obtain ⟨k, hcut, hrest⟩ := rest_take htake
      rw [hcut]
      simp [htake, hrest]
  have hgood : ∀ s : EagerChunks, s.chunking = chunking →
      HandsOut EagerChunks.nextChunk (fun s => s.buf.rest) chunking s := by
    rintro s rfl
    exact (hhands s).1
  have hkeep : ∀ s : EagerChunks, s.chunking = chunking → s.nextChunk.2.chunking = chunking := by
    rintro s hs
    rw [(hhands s).2, hs]
  exact yields_of_handsOut _ hgood hkeep _ (.new content chunking) rfl le_rfl

variable (cs : Charset) (blocks : List Block)

def bytesOf : List UInt8 := (blocks.map Block.bytes).flatten

def StreamsWhole : Prop :=
  (StreamDecoder.new cs).text (blocks.map Block.bytes) = decode (bytesOf blocks) cs ∧
    ∀ chunking, Yields StreamFileChunks.nextChunk (.new blocks cs chunking)
      (chunksOf chunking (decode (bytesOf blocks) cs))

/-- **A file is streamed as it is read whole exactly when no block is pushed carelessly.** -/
theorem streamsWhole_iff : StreamsWhole cs blocks ↔
    (StreamDecoder.new cs).Tidy (blocks.map Block.bytes) := by
  rw [← text_eq_iff (sound_new cs), whole_new]
  refine ⟨And.left, fun htext => ⟨htext, fun chunking => ?_⟩⟩
  have hyields := yields_chunksOf (.new blocks cs chunking)
  have howed : owed (.new blocks cs chunking) = decode (bytesOf blocks) cs := by
    rw [bytesOf, ← htext]
    rfl
  rwa [howed] at hyields

/-- A stray byte before a character that the block breaks: three replacement characters instead of
one and a euro sign. -/
theorem euro_lost :
    ¬ StreamsWhole .utf8 [⟨[0xFF, 0xE2, 0x82], by decide⟩, ⟨[0xAC], by decide⟩] := by
  intro h
  exact absurd h.1 (by decide)

end RustCfml.Files
