import RustCfml.Common.Key

/-!
# Sanitiser policies

A policy names elements and says what happens to each (`TagAction`), and names attributes and
says which values each may have. Names of the policy are lower case; names of the document are
looked up by their lower-case form, and elements and attributes alike go by their **local
name**: two attributes of one element that differ in namespace only, as `href` and
`xlink:href`, are one attribute to the policy.
-/

namespace RustCfml.Sanitize

/-- `Regex::find`: the byte range of the first match. -/
structure Regex where
  find : String → Option (Nat × Nat)

/-- The span of the one match that is found is the whole value. -/
def Regex.fullMatch (re : Regex) (value : String) : Bool :=
  match re.find value with
  | some (start, stop) => start == 0 && stop == value.utf8ByteSize
  | none => false

inductive OnInvalid where
  | removeAttribute
  | removeTag
  | filterTag
deriving DecidableEq

inductive TagAction where
  | validate
  | filter
  | remove
  | truncate
  | encode
deriving DecidableEq

/-- What a policy says of one attribute: literals and patterns for its value. -/
structure AttributeRule where
  onInvalid : OnInvalid
  regexps : List Regex
  literals : List String
  constrained : Bool

def AttributeRule.allowAny : AttributeRule := ⟨.removeAttribute, [], [], false⟩

/-- An unconstrained rule takes any value, others what a literal or a pattern takes. -/
def AttributeRule.accepts (rule : AttributeRule) (value : String) : Bool :=
  !rule.constrained
    || rule.literals.any (fun l => asciiFold l == (trim value.toList).map Char.toLower)
    || rule.regexps.any (fun r => r.fullMatch value)

/-- The tag's own rules; an attribute without one defers to the common rule. -/
structure TagRule where
  action : TagAction
  attributes : List Char → Option (Option AttributeRule)

structure Policy where
  directives : List Char → Option String
  commonAttributes : List Char → Option AttributeRule
  globalAttributes : List Char → Bool
  tags : List Char → Option TagRule
  filterDeclarations : String → String

def parseUsize (cs : List Char) : Option Nat :=
  let digits : List Char := match cs with
    | '+' :: ds => ds
    | ds => ds
  let n := digits.foldl (fun n c => 10 * n + (c.toNat - 48)) 0
  if digits ≠ [] ∧ digits.all Char.isDigit ∧ n < 2 ^ 64 then some n else none

namespace Policy

def maxInputSize (policy : Policy) : Option Nat :=
  (policy.directives "maxinputsize".toList).bind fun v => parseUsize (trim v.toList)

def commonRule (policy : Policy) (name : List Char) : AttributeRule :=
  (policy.commonAttributes name).getD .allowAny

/-- The tag's own rule, the common one it refers to, or a global one. -/
def attributeRule (policy : Policy) (tag name : List Char) : Option AttributeRule :=
  match (policy.tags tag).bind fun r => r.attributes name with
  | some (some rule) => some rule
  | some none => some (policy.commonRule name)
  | none =>
    if policy.globalAttributes name then some (policy.commonRule name) else none

end Policy

/-- Elements that a policy has to name to keep. -/
def removeIfUnnamed : List (List Char) :=
  ["script", "iframe", "frame", "frameset", "object", "embed", "applet", "noscript", "noembed",
   "template", "base", "form"].map String.toList

/-- `on` and at least one more character. -/
def isEventHandler : List Char → Bool
  | o :: n :: _ :: _ => o.toLower == 'o' && n.toLower == 'n'
  | _ => false

structure QualName where
  nsPrefix : Option String
  ns : String
  localName : String
deriving DecidableEq

abbrev Attribute := QualName × String

def Attribute.name (a : Attribute) : List Char := asciiFold a.1.localName

/-- An element: its local name, and its attributes in order, each key once. -/
structure Element where
  name : String
  attrs : List Attribute
  distinct : (attrs.map Prod.fst).Nodup

def Element.tag (e : Element) : List Char := asciiFold e.name

/-- What becomes of an element. -/
inductive Disposition where
  | keep
  | drop
  | unwrap
deriving DecidableEq

/-- A change to an attribute, by local name: a new value, or none for removal. -/
abbrev AttributeEdit := String × Option String

inductive Verdict where
  | leave
  | edit (value : Option String)
  | refuse (d : Disposition)

namespace Policy

variable (policy : Policy)

lemma lawfulBEq_tag : LawfulBEq (List Char) := inferInstance

attribute [local instance] lawfulBEq_tag

def action (tag : List Char) : TagAction :=
  match policy.tags tag with
  | some r => r.action
  | none => if tag ∈ removeIfUnnamed then .remove else .filter

/-- What becomes of an attribute. -/
def verdict (tag : List Char) (a : Attribute) : Verdict :=
  if isEventHandler a.name then .edit none
  else if a.name = "style".toList ∧ (policy.attributeRule tag "style".toList).isSome then
    .edit (some (policy.filterDeclarations a.2))
  else
    match policy.attributeRule tag a.name with
    | none => .edit none
    | some rule =>
      if rule.accepts a.2 then .leave
      else
        match rule.onInvalid with
        | .removeTag => .refuse .drop
        | .filterTag => .refuse .unwrap
        | .removeAttribute => .edit none

/-- The loop: the edits in the order of the attributes, or what the first refusal makes of the
element. -/
def attributeEdits (tag : List Char) : List Attribute → Except Disposition (List AttributeEdit)
  | [] => .ok []
  | a :: as =>
    match policy.verdict tag a with
    | .leave => attributeEdits tag as
    | .edit value => (attributeEdits tag as).map fun edits => (a.1.localName, value) :: edits
    | .refuse d => .error d

/-- One node of the traversal: what becomes of it, and the edits of its attributes. -/
def decide (e : Element) : Disposition × List AttributeEdit :=
  match policy.action e.tag with
  | .remove => (.drop, [])
  | .filter => (.unwrap, [])
  | .encode => (.unwrap, [])
  | .truncate => (.keep, e.attrs.map fun a => (a.1.localName, none))
  | .validate =>
    match policy.attributeEdits e.tag e.attrs with
    | .ok edits => (.keep, edits)
    | .error d => (d, [])

def Keeps (tag : List Char) : Prop := policy.action tag = .validate ∨ policy.action tag = .truncate

end Policy

end RustCfml.Sanitize
