import Mathlib

/-!
# Cutting a sequence into pieces

A sequence is read from the left; an element may close the piece it ends, and what is left at the
end is a piece if it is not empty. Both are walks over the elements, so they compute, and **what is
proved of them is proved from the two facts `piecesFrom_whole` and `piecesFrom_closed`**: a sequence
no element of which closes it is one piece, and the first element that does ends the first.
-/

namespace Pieces

open List

variable {α : Type}

def piecesFrom (close : List α → α → Option (List α)) (piece : List α) : List α → List (List α)
  | [] => if piece.isEmpty then [] else [piece]
  | c :: text =>
    match close piece c with
    | some done => done :: piecesFrom close [] text
    | none => piecesFrom close (piece ++ [c]) text

section

variable {close : List α → α → Option (List α)}

lemma piecesFrom_open : ∀ (a : List α) {piece : List α} (text : List α),
    (∀ b c b', a = b ++ c :: b' → close (piece ++ b) c = none) →
      piecesFrom close piece (a ++ text) = piecesFrom close (piece ++ a) text
  | [], piece, text, _ => by simp
  | x :: a, piece, text, h => by
    have hx : close piece x = none := by simpa using h [] x a rfl
    have hnext : ∀ b c b', a = b ++ c :: b' → close (piece ++ [x] ++ b) c = none := by
      intro b c b' heq
      have := h (x :: b) c b' (by rw [heq]; rfl)
      simpa using this
    have ih := piecesFrom_open a text hnext
    rw [cons_append, piecesFrom, hx]
    simpa using ih

lemma piecesFrom_whole {text : List α} (hne : text ≠ [])
    (h : ∀ b c b', text = b ++ c :: b' → close b c = none) : piecesFrom close [] text = [text] := by
  have hopen : piecesFrom close [] (text ++ []) = piecesFrom close ([] ++ text) [] :=
    piecesFrom_open text [] (by simpa using h)
  rw [append_nil, nil_append] at hopen
  rw [hopen, piecesFrom, if_neg (by simpa using hne)]

lemma piecesFrom_closed {a text done : List α} {c : α}
    (h : ∀ b x b', a = b ++ x :: b' → close b x = none)
    (hc : close a c = some done) : piecesFrom close [] (a ++ c :: text) = done ::
    piecesFrom close [] text := by
  have hopen : piecesFrom close [] (a ++ c :: text) = piecesFrom close ([] ++ a) (c :: text) :=
    piecesFrom_open a (c :: text) (by simpa using h)
  rw [nil_append] at hopen
  rw [hopen, piecesFrom, hc]

end

def closeAt (n : Nat) (piece : List α) (c : α) : Option (List α) :=
  if piece.length + 1 = n then some (piece ++ [c]) else none

def chunks (n : Nat) : List α → List (List α) := piecesFrom (closeAt n) []

@[simp] lemma chunks_nil (n : Nat) : chunks n ([] : List α) = [] := rfl

lemma closeAt_none {n : Nat} {a b b' : List α} {c : α} (ha : a.length < n) (h : a = b ++ c :: b') :
    closeAt n b c = none := by
  have hlen : b.length + 1 ≠ n := by
    rw [h, length_append, length_cons] at ha
    omega
  exact if_neg hlen

variable {n : Nat} {l : List α}

lemma chunks_of_le (hn : 1 ≤ n) (h : n ≤ l.length) :
    chunks n l = l.take n :: chunks n (l.drop n) := by
  have hlt : n - 1 < l.length := by omega
  have hone : n - 1 + 1 = n := by omega
  have hlen : (l.take (n - 1)).length = n - 1 := length_take_of_le (by omega)
  have hclose : closeAt n (l.take (n - 1)) l[n - 1] = some (l.take n) := by
    have htake := take_append_getElem hlt
    rw [hone] at htake
    rw [closeAt, if_pos (by omega), htake]
  conv_lhs => rw [← take_append_drop (n - 1) l, drop_eq_getElem_cons hlt, hone]
  exact piecesFrom_closed (fun b c b' heq => closeAt_none (by omega) heq) hclose

lemma chunks_of_lt (hne : l ≠ []) (h : l.length < n) : chunks n l = [l] :=
  piecesFrom_whole hne fun _ _ _ heq => closeAt_none h heq

lemma chunks_append {a : List α} (hn : 1 ≤ n) (ha : a.length = n) (l : List α) :
    chunks n (a ++ l) = a :: chunks n l := by
  rw [chunks_of_le hn (by rw [length_append]; omega), ← ha, take_left, drop_left]

/-- **Induction by chunks**: the empty sequence, a last chunk that is not full, and a full chunk
before a sequence. -/
theorem chunks_induction {P : List α → Prop} (hn : 1 ≤ n) (empty : P [])
    (last : ∀ l, l ≠ [] → l.length < n → P l) (full : ∀ a l, a.length = n → P l → P (a ++ l)) :
    ∀ l, P l := by
  intro l
  induction hlen : l.length using Nat.strongRecOn generalizing l with
  | ind m ih =>
    by_cases hfull : n ≤ l.length
    · rw [← take_append_drop n l]
      refine full _ _ (length_take_of_le hfull) (ih (l.drop n).length ?_ _ rfl)
      rw [length_drop]
      omega
    · by_cases hne : l = []
      · exact hne ▸ empty
      · exact last l hne (by omega)

lemma flatten_chunks (hn : 1 ≤ n) (l : List α) : (chunks n l).flatten = l := by
  induction l using chunks_induction hn with
  | empty => rfl
  | last l hne hlt => simp [chunks_of_lt hne hlt]
  | full a l ha ih => rw [chunks_append hn ha, flatten_cons, ih]

lemma chunks_flatten (hn : 1 ≤ n) : ∀ (pieces : List (List α)), (∀ p ∈ pieces, p.length = n) →
    chunks n pieces.flatten = pieces
  | [], _ => rfl
  | p :: pieces, h => by
    have ih := chunks_flatten hn pieces (forall_mem_cons.1 h).2
    rw [flatten_cons, chunks_append hn (h p mem_cons_self), ih]

lemma length_of_mem_chunks (hn : 1 ≤ n) (l : List α) : l.length % n = 0 → ∀ p ∈ chunks n l,
    p.length = n := by
  induction l using chunks_induction hn with
  | empty => simp
  | last l hne hlt =>
    intro hmod
    rw [Nat.mod_eq_of_lt hlt] at hmod
    exact absurd (length_eq_zero_iff.1 hmod) hne
  | full a l ha ih =>
    intro hmod p hp
    rw [chunks_append hn ha] at hp
    obtain rfl | hp := mem_cons.1 hp
    · exact ha
    · refine ih ?_ p hp
      rwa [length_append, ha, Nat.add_mod_left] at hmod

/-- The carriage return of `\r\n`. -/
def stripCr (line : List Char) : List Char :=
  if line.getLast? = some '\r' then line.dropLast else line

def closeLine (piece : List Char) (c : Char) : Option (List Char) :=
  if c = '\n' then some (stripCr piece) else none

def lines : List Char → List (List Char) := piecesFrom closeLine []

lemma closeLine_none {a b b' : List Char} {c : Char} (ha : '\n' ∉ a) (h : a = b ++ c :: b') :
    closeLine b c = none := by
  have hc : c ≠ '\n' := by
    rintro rfl
    exact ha (by simp [h])
  exact if_neg hc

lemma lines_cons {a : List Char} (ha : '\n' ∉ a) (text : List Char) :
    lines (a ++ '\n' :: text) = stripCr a :: lines text :=
  piecesFrom_closed (fun _ _ _ heq => closeLine_none ha heq) (if_pos rfl)

lemma lines_last {text : List Char} (hne : text ≠ []) (h : '\n' ∉ text) : lines text = [text] :=
  piecesFrom_whole hne fun _ _ _ heq => closeLine_none h heq

lemma lines_flatMap {β : Type} (f : β → List Char) : ∀ (l : List β),
    (∀ x ∈ l, ∀ c ∈ f x, c ≠ '\n' ∧ c ≠ '\r') → lines (l.flatMap fun x => f x ++ ['\n']) = l.map f
  | [], _ => rfl
  | x :: l, h => by
    have hx := h x mem_cons_self
    have ih := lines_flatMap f l (forall_mem_cons.1 h).2
    have hstrip : stripCr (f x) = f x := by
      refine if_neg fun hlast => ?_
      exact (hx _ (mem_of_getLast? hlast)).2 rfl
    rw [flatMap_cons, append_assoc, singleton_append, lines_cons fun hmem => (hx _ hmem).1 rfl, ih,
      hstrip, map_cons]

end Pieces
