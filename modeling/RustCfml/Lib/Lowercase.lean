import Mathlib

/-!
# Lower-casing text

`str::to_lowercase` maps every character through the Unicode table, one character to one or more,
with a single rule that looks at the neighbours: a capital sigma at the end of a word becomes a
final sigma.
-/

namespace Lowercase

/-- The Unicode data `to_lowercase` reads. -/
structure CaseTables where
  toLower : Char → List Char
  cased : Char → Bool
  caseIgnorable : Char → Bool
  ascii : ∀ c : Char, c.toNat < 128 → toLower c = [c.toLower]

variable (T : CaseTables)

def isAscii (c : Char) : Bool := c.toNat < 128

def nearestCased (cs : List Char) : Bool :=
  match cs.dropWhile T.caseIgnorable with
  | [] => false
  | c :: _ => T.cased c

def lowerAt (before : List Char) (c : Char) (after : List Char) : List Char :=
  if c = 'Σ' then
    if nearestCased T before && !nearestCased T after then ['ς'] else ['σ']
  else T.toLower c

def lowerFrom : List Char → List Char → List Char
  | _, [] => []
  | before, c :: cs => lowerAt T before c cs ++ lowerFrom (c :: before) cs

def toLowercase (cs : List Char) : List Char := lowerFrom T [] cs

def lowerString (s : String) : String := .ofList (toLowercase T s.toList)

def CaseTables.asciiLetters : CaseTables :=
  ⟨fun c => [c.toLower], fun _ => false, fun _ => false, fun _ _ => rfl⟩

def cmpChars (a b : List Char) : Ordering := compare (a.map Char.toNat) (b.map Char.toNat)

variable {before cs : List Char} {c : Char}

lemma lowerAt_ascii {after : List Char} (h : isAscii c = true) :
    lowerAt T before c after = [c.toLower] := by
  have hc : c.toNat < 128 := by simpa [isAscii] using h
  have hsigma : c ≠ 'Σ' := by
    rintro rfl
    exact absurd hc (by decide)
  rw [lowerAt, if_neg hsigma, T.ascii c hc]

lemma lowerFrom_ascii_cons (h : isAscii c = true) :
    lowerFrom T before (c :: cs) = c.toLower :: lowerFrom T (c :: before) cs := by
  rw [lowerFrom, lowerAt_ascii T h]
  rfl

lemma lowerFrom_ascii (h : ∀ c ∈ cs, isAscii c = true) :
    lowerFrom T before cs = cs.map Char.toLower := by
  induction cs generalizing before with
  | nil => rfl
  | cons c cs ih =>
    rw [lowerFrom_ascii_cons T (h c (by simp)), ih fun d hd => h d (by simp [hd])]
    rfl

end Lowercase
