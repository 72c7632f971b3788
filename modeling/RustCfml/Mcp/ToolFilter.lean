import RustCfml.Mcp.Admission

/-!
# The tools a caller may use

Include and exclude lists are globs over tool names. `glob_match` compares a character of the
pattern with the value before it asks whether it is a `*`, so a `*` in the value uses up the one of
the pattern: **the lists mean what they say where only one of the two texts has a `*`.** -/

namespace RustCfml.Mcp

open List

variable (R : Runtime)

def Caller.mayCall (caller : Caller) (tool : List Char) : Bool :=
  if caller.noneIncluded then false
  else
    let included :=
      if caller.included.isEmpty then true else caller.included.any fun p => globMatch R p tool
    -- exclusions come after inclusions, so that a broad `*` can be narrowed
    included && !caller.excluded.any fun p => globMatch R p tool

/-- What the lists grant. A caller whose scopes map to no tools has an empty list too, and no
tools. -/
def Caller.Granted (caller : Caller) (tool : List Char) : Prop :=
  caller.noneIncluded = false ∧
    (caller.included = [] ∨ ∃ p ∈ caller.included, GlobMatches R p tool) ∧
    ¬ ∃ p ∈ caller.excluded, GlobMatches R p tool

variable {R}

lemma any_globMatch_iff {patterns : List String} {tool : List Char}
    (h : ∀ p ∈ patterns, StarsApart R p tool) :
    (patterns.any fun p => globMatch R p tool) = true ↔ ∃ p ∈ patterns, GlobMatches R p tool := by
  rw [any_eq_true]
  exact exists_congr fun p => and_congr_right fun hp => globMatch_of_starsApart R (h p hp)

lemma mayCall_iff_granted {caller : Caller} {tool : List Char}
    (hin : ∀ p ∈ caller.included, StarsApart R p tool)
    (hex : ∀ p ∈ caller.excluded, StarsApart R p tool) : caller.mayCall R tool = true ↔
    caller.Granted R tool := by
  rw [Caller.mayCall, Caller.Granted, ← any_globMatch_iff hin, ← any_globMatch_iff hex]
  cases caller.noneIncluded with
  | true => simp
  | false =>
    cases caller.included with
    | nil | cons p ps => simp

def narrowed : Caller where
  identity := none
  included := ["a*"]
  excluded := []
  transport := "http"

end RustCfml.Mcp
