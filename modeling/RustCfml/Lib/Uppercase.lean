import Mathlib

/-!
# Upper-casing text

`str::to_uppercase` maps every character through the Unicode table, one character to one or more,
and looks at no neighbours.
-/

namespace Uppercase

/-- The Unicode data `to_uppercase` reads. -/
structure UpperTable where
  toUpper : Char → List Char
  ascii : ∀ c : Char, c.toNat < 128 → toUpper c = [c.toUpper]

def UpperTable.asciiLetters : UpperTable := ⟨fun c => [c.toUpper], fun _ _ => rfl⟩

def toUppercase (U : UpperTable) (s : String) : String := .ofList (s.toList.flatMap U.toUpper)

end Uppercase
