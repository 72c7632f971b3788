import RustCfml.Common.Value
import RustCfml.Common.VersionedMap
import RustCfml.Lib.Lowercase

/-!
# The cookie scope and the headers made from it

`cookie.x = {value: …, httpOnly: …}` stores the plain value under `x` and parks the struct beside
the map; the flush at the end of the request looks a parked struct up again and uses it when its
`value` is still the one in the map. The two meet only by name and by text, so **a parked struct
outlives the write it came with**: a plain write leaves it, and so does clearing the scope. What is
parked is the program's own struct, and **a later change to it is a change to the cookie**.
-/

namespace RustCfml.Cookies

open Lowercase StateMachine List Option

/-- What the scope takes from outside: the Unicode table and `as_string`. -/
structure Texts where
  tables : CaseTables
  asString : CfmlValue → String
  asString_string : ∀ t, asString (.string t) = t

abbrev Handle := Nat

/-- The structs of the program; all that have one's handle see its changes. -/
abbrev Heap := Handle → ValueMap CfmlValue

/-- What is written to the scope: a struct, or a value that is none. -/
inductive Cell where
  | plain (v : CfmlValue)
  | live (h : Handle)

def Cell.read (heap : Heap) : Cell → CfmlValue
  | plain v => v
  | live h => .struct (heap h)

structure CookieScope where
  map : ValueMap Cell
  /-- `cookie_attrs`, keyed by the name in ASCII lower case. -/
  attrs : List Char → Option Handle
  distinct : map.Distinct

def CookieScope.Holds (s : CookieScope) (h : Handle) : Prop :=
  (∃ k, s.attrs k = some h) ∨ ∃ e ∈ s.map, e.2 = .live h

inductive Op where
  | write (key : String) (value : Cell)
  | delete (key : String)
  | clear
  /-- The program changes one of its structs. -/
  | change (h : Handle) (entries : ValueMap CfmlValue)

inductive Source where
  | attributes (attrs : ValueMap CfmlValue)
  | value (v : CfmlValue)

variable (T : Texts)

/-- The text of the struct's `value` entry. -/
def valueText (entries : ValueMap CfmlValue) : Option String :=
  (ValueMap.get? entries "value").map T.asString

/-- `CfmlStruct::insert` on the cookie scope. -/
def CookieScope.insert (heap : Heap) (s : CookieScope) (key : String) : Cell → CookieScope
  | .plain v => ⟨s.map.insert key (.plain v), s.attrs, s.distinct.insert key _⟩
  | .live h =>
    match valueText T (heap h) with
    | some text =>
      ⟨s.map.insert key (.plain (.string text)), Function.update s.attrs (asciiFold key) (some h),
        s.distinct.insert key _⟩
    | none => ⟨s.map.insert key (.live h), s.attrs, s.distinct.insert key _⟩

def CookieScope.remove (s : CookieScope) (key : String) : CookieScope :=
  if (s.map.get? key).isSome then
    ⟨s.map.shiftRemove key, Function.update s.attrs (asciiFold key) none, s.distinct.filter _⟩
  else s

/-- Unlike `remove`, this does not look at the parked structs. -/
def CookieScope.clear (s : CookieScope) : CookieScope := ⟨[], s.attrs, ValueMap.distinct_nil⟩

def lowered (name : String) : List Char := toLowercase T.tables name.toList

def isSessionCookie (name : String) : Bool :=
  ["cfid", "cftoken", "jsessionid"].any (eqIgnoreAsciiCase name)

def parkedFor (heap : Heap) (s : CookieScope) (name : String) (value : CfmlValue) :
    Option (ValueMap CfmlValue) :=
  ((s.attrs (lowered T name)).map heap).filter fun a => valueText T a == some (T.asString value)

/-- One turn of the loop of `flush_cookie_scope_writes`. -/
def flushEntry (initialCookies : List (String × String)) (alreadySet : List (List Char))
    (heap : Heap) (s : CookieScope) (name : String) (value : CfmlValue) : Option Source :=
  if isSessionCookie name || alreadySet.contains (lowered T name) then none
  else
    match parkedFor T heap s name value with
    | some a => some (.attributes a)
    | none =>
      if initialCookies.any fun c => eqIgnoreAsciiCase c.1 name && c.2 == T.asString value then none
      else some (.value value)

/-- `flush_cookie_scope_writes` -/
def flush (initialCookies : List (String × String)) (alreadySet : List (List Char))
    (heap : Heap) (s : CookieScope) : List (String × Source) :=
  s.map.filterMap fun e =>
    (flushEntry T initialCookies alreadySet heap s e.1 (e.2.read heap)).map (e.1, ·)

/-- What was done to the scope: a write with the attributes it had, if it was in long form. -/
inductive Entry where
  | wrote (key : String) (attrs : Option (ValueMap CfmlValue))
  | deleted (key : String)
  | cleared

def Entry.concerns (name : String) : Entry → Bool
  | wrote key _ | deleted key => eqIgnoreAsciiCase key name
  | cleared => true

/-- The attributes of a write, as the struct has them at that moment. -/
def longForm (heap : Heap) : Cell → Option (ValueMap CfmlValue)
  | .plain _ => none
  | .live h => if (valueText T (heap h)).isSome then some (heap h) else none

/-- A request so far: the scope, the structs and what was done to the scope, the last first. -/
structure Request where
  scope : CookieScope
  heap : Heap
  log : List Entry

def Request.latest (r : Request) (name : String) : Option Entry := r.log.find? (·.concerns name)

/-- The struct parked under a name, as it is now. -/
def Request.parked (r : Request) (k : List Char) : Option (ValueMap CfmlValue) :=
  (r.scope.attrs k).map r.heap

def step (r : Request) : Op → Request
  | .write key c =>
    ⟨r.scope.insert T r.heap key c, r.heap, .wrote key (longForm T r.heap c) :: r.log⟩
  | .delete key => ⟨r.scope.remove key, r.heap, .deleted key :: r.log⟩
  | .clear => ⟨r.scope.clear, r.heap, .cleared :: r.log⟩
  | .change h entries => { r with heap := Function.update r.heap h entries }

def arrived (cookies : ValueMap Cell) (h : cookies.Distinct) (heap : Heap) : Request :=
  ⟨⟨cookies, fun _ => none, h⟩, heap, []⟩

/-- The attributes an emitted cookie carries are those of a long-form write exactly when that write
is the latest operation on the name. -/
def AttributesFollow (initialCookies : List (String × String)) (alreadySet : List (List Char))
    (r : Request) : Prop :=
  ∀ name source, (name, source) ∈ flush T initialCookies alreadySet r.heap r.scope → ∀ a,
    (source = .attributes a ↔ ∃ key, r.latest name = some (.wrote key (some a)))

/-- What a step must keep to: names that the two lower-casings agree on, no plain write of the text
that a parked struct of the name holds, and no change to a struct that the scope holds. -/
def Guard (r : Request) : Op → Prop
  | .write key c => lowered T key = asciiFold key ∧ (longForm T r.heap c = none →
      ∀ a, r.parked (asciiFold key) = some a → valueText T a ≠ some (T.asString (c.read r.heap)))
  | .change h _ => ¬ r.scope.Holds h
  | _ => True

/-! ## The invariant -/

/-- A cookie in the map stems from the latest operation on its name. -/
def Traced (r : Request) (name : String) (c : Cell) : Prop :=
  (∃ key a t, r.latest name = some (.wrote key (some a)) ∧ valueText T a = some t ∧
    c = .plain (.string t) ∧ r.parked (asciiFold name) = some a) ∨
  ((∀ key a, r.latest name ≠ some (.wrote key (some a))) ∧
    ∀ a, r.parked (asciiFold name) = some a → valueText T a ≠ some (T.asString (c.read r.heap)))

structure Inv (r : Request) : Prop where
  names : ∀ key ∈ r.scope.map.keys, lowered T key = asciiFold key
  traced : ∀ name c, r.scope.map.get? name = some c → Traced T r name c

variable {T} {r : Request}

variable {op : Op} {name key : String} {c : Cell}

lemma Traced.of_same {r' : Request} (h : Traced T r name c)
    (hlatest : r'.latest name = r.latest name)
    (hparked : r'.parked (asciiFold name) = r.parked (asciiFold name))
    (hread : c.read r'.heap = c.read r.heap) : Traced T r' name c := by
  rw [Traced, hlatest, hparked, hread]
  exact h

lemma attrs_insert_of_ne (s : CookieScope) (heap : Heap) (c : Cell)
    (h : asciiFold key ≠ asciiFold name) :
    (s.insert T heap key c).attrs (asciiFold name) = s.attrs (asciiFold name) := by
  unfold CookieScope.insert
  split
  · rfl
  · split
    · exact Function.update_of_ne h.symm _ _
    · rfl

/-- The cell that ends up in the map: the text of a struct in long form, else what was written. -/
def stored (T : Texts) (heap : Heap) (c : Cell) : Cell :=
  (((longForm T heap c).bind (valueText T)).map fun t => .plain (.string t)).getD c

lemma map_insert (s : CookieScope) (heap : Heap) (key : String) (c : Cell) :
    (s.insert T heap key c).map = s.map.insert key (stored T heap c) := by
  cases c with
  | plain v => rfl
  | live h =>
    simp only [CookieScope.insert, stored, longForm]
    cases htext : valueText T (heap h) with
    | none => rfl
    | some t => simp [htext]

lemma longForm_eq_some {heap : Heap} {a : ValueMap CfmlValue} (h : longForm T heap c = some a) :
    ∃ hd t, c = .live hd ∧ a = heap hd ∧ valueText T a = some t := by
  cases c with
  | plain v => cases h
  | live hd =>
    rw [longForm] at h
    split at h
    next hsome =>
      obtain rfl := some.inj h
      obtain ⟨t, ht⟩ := isSome_iff_exists.1 hsome
      exact ⟨hd, t, rfl, rfl, ht⟩
    next => cases h

lemma Inv.write (h : Inv T r) (hg : Guard T r (.write key c)) :
    Inv T (step T r (.write key c)) := by
  have hmap : (step T r (.write key c)).scope.map = r.scope.map.insert key (stored T r.heap c) :=
    map_insert r.scope r.heap key c
  refine ⟨fun k hk => ?_, fun name v hget => ?_⟩
  · rw [hmap] at hk
    rcases ValueMap.mem_keys_insert hk with hk | rfl
    · exact h.names k hk
    · exact hg.1
  · rw [hmap, ValueMap.get?_insert] at hget
    by_cases hkey : asciiFold key = asciiFold name
    · rw [if_pos hkey] at hget
      obtain rfl := some.inj hget
      have hlatest : (step T r (.write key c)).latest name =
          some (.wrote key (longForm T r.heap c)) := by
        simp [Request.latest, step, Entry.concerns, hkey]
      cases hlong : longForm T r.heap c with
      | some a =>
        -- long form: parked under this name by this very write
        obtain ⟨hd, t, rfl, rfl, ht⟩ := longForm_eq_some hlong
        refine .inl ⟨key, r.heap hd, t, by rw [hlatest, hlong], ht, ?_, ?_⟩
        · simp [stored, hlong, ht]
        · simp [Request.parked, step, CookieScope.insert, ht, ← hkey]
      | none =>
        have hparked : (step T r (.write key c)).parked (asciiFold name) =
            r.parked (asciiFold key) := by
          rw [← hkey]
          cases c with
          | plain v => rfl
          | live hd =>
            have ht : valueText T (r.heap hd) = none := by
              simpa [longForm] using hlong
            simp [Request.parked, step, CookieScope.insert, ht]
        have hstored : stored T r.heap c = c := by simp [stored, hlong]
        rw [hstored]
        refine .inr ⟨fun key' a ha => ?_, fun a ha => ?_⟩
        · rw [hlatest, hlong] at ha
          cases ha
        · rw [hparked] at ha
          exact hg.2 hlong a ha
    · rw [if_neg hkey] at hget
      refine (h.traced name v hget).of_same ?_ ?_ rfl
      · simp [Request.latest, step, Entry.concerns, eqIgnoreAsciiCase, hkey]
      · simp only [Request.parked, step, attrs_insert_of_ne r.scope r.heap c hkey]

lemma Inv.delete (h : Inv T r) (key : String) : Inv T (step T r (.delete key)) := by
  have hscope : (step T r (.delete key)).scope = r.scope.remove key := rfl
  have hget : ∀ name, (r.scope.remove key).map.get? name =
      if asciiFold key = asciiFold name then none else r.scope.map.get? name := by
    intro name
    unfold CookieScope.remove
    split
    · exact ValueMap.get?_shiftRemove _ _ _
    · next hnone =>
      split
      · next heq =>
        rw [← ValueMap.get?_congr heq]
        simpa using hnone
      · rfl
  refine ⟨fun k hk => h.names k ?_, fun name v hv => ?_⟩
  · rw [hscope, CookieScope.remove] at hk
    split at hk
    · exact Sublist.subset (filter_sublist.map _) hk
    · exact hk
  · rw [hscope, hget] at hv
    by_cases hkey : asciiFold key = asciiFold name
    · rw [if_pos hkey] at hv
      cases hv
    · rw [if_neg hkey] at hv
      refine (h.traced name v hv).of_same ?_ ?_ rfl
      · simp [Request.latest, step, Entry.concerns, eqIgnoreAsciiCase, hkey]
      · have hattrs : (r.scope.remove key).attrs (asciiFold name) =
            r.scope.attrs (asciiFold name) := by
          unfold CookieScope.remove
          split
          · exact Function.update_of_ne (Ne.symm hkey) _ _
          · rfl
        exact congrArg (Option.map r.heap) hattrs

/-- A struct that the scope does not hold changes nothing for it. -/
lemma Inv.change (h : Inv T r) {hd : Handle} (hg : ¬ r.scope.Holds hd)
    (entries : ValueMap CfmlValue) : Inv T (step T r (.change hd entries)) := by
  refine ⟨h.names, fun name c hget => (h.traced name c hget).of_same rfl ?_ ?_⟩
  · show (r.scope.attrs (asciiFold name)).map _ = (r.scope.attrs (asciiFold name)).map _
    cases hattrs : r.scope.attrs (asciiFold name) with
    | none => rfl
    | some h' =>
      have : h' ≠ hd := fun heq => hg (.inl ⟨_, heq ▸ hattrs⟩)
      simp [step, Function.update_of_ne this]
  · cases c with
    | plain v => rfl
    | live h' =>
      obtain ⟨e, hfind, hlive⟩ := map_eq_some_iff.1 hget
      have : h' ≠ hd := fun heq => hg (.inr ⟨e, mem_of_find?_eq_some hfind, heq ▸ hlive⟩)
      simp [Cell.read, step, Function.update_of_ne this]

lemma Inv.step (h : Inv T r) (hg : Guard T r op) : Inv T (step T r op) := by
  cases op with
  | write key value => exact h.write hg
  | delete key => exact h.delete key
  | clear =>
    refine ⟨fun k hk => ?_, fun name v hv => ?_⟩
    · cases hk
    · cases hv
  | change hd entries => exact h.change hg entries

lemma source_iff {initialCookies : List (String × String)} {alreadySet : List (List Char)}
    {heap : Heap} {s : CookieScope} {name : String} {value : CfmlValue} {src : Source}
    (h : flushEntry T initialCookies alreadySet heap s name value = some src)
    (a : ValueMap CfmlValue) :
    src = .attributes a ↔ parkedFor T heap s name value = some a := by
  rw [flushEntry] at h
  split at h
  · cases h
  · cases hparked : parkedFor T heap s name value with
    | some a' =>
      rw [hparked] at h
      cases h
      simp
    | none =>
      rw [hparked] at h
      dsimp only at h
      split at h
      · cases h
      · cases h
        simp

lemma Inv.attributesFollow (h : Inv T r) (initialCookies : List (String × String))
    (alreadySet : List (List Char)) : AttributesFollow T initialCookies alreadySet r := by
  intro name source hmem a
  obtain ⟨e, he, hflush⟩ := mem_filterMap.1 hmem
  obtain ⟨src, hentry, heq⟩ := map_eq_some_iff.1 hflush
  obtain ⟨rfl, rfl⟩ := Prod.mk.inj heq
  have hget : r.scope.map.get? e.1 = some e.2 := ValueMap.get?_of_mem r.scope.distinct he
  have hname := h.names e.1 (mem_map_of_mem he)
  rw [source_iff hentry, parkedFor, hname]
  rcases h.traced e.1 e.2 hget with ⟨key, b, t, hlatest, htext, hvalue, hparked⟩ | ⟨hplain, hother⟩
  · have hkept : ((r.scope.attrs (asciiFold e.1)).map r.heap).filter
        (fun a => valueText T a == some (T.asString (e.2.read r.heap))) = some b := by
      rw [show (r.scope.attrs (asciiFold e.1)).map r.heap = some b from hparked, hvalue, Cell.read,
        T.asString_string]
      simp [htext]
    rw [hkept, hlatest]
    constructor
    · rintro ⟨⟩
      exact ⟨key, rfl⟩
    · rintro ⟨key', heq⟩
      cases heq
      rfl
  · constructor
    · intro hfound
      obtain ⟨hparked, hmatch⟩ := filter_eq_some_iff.1 hfound
      exact absurd (eq_of_beq hmatch) (hother a hparked)
    · rintro ⟨key, hlatest⟩
      exact absurd hlatest (hplain key a)

/-- **Attributes follow the latest write** in every state of every request whose cookies have names
that lower-case in one way, that never writes a cookie in plain form with the text a parked long
form of its name holds, and that leaves the structs alone which it has written to the scope. -/
theorem attributes_follow {cookies : ValueMap Cell} (hd : cookies.Distinct) (heap : Heap)
    (hnames : ∀ key ∈ cookies.keys, lowered T key = asciiFold key)
    (initialCookies : List (String × String)) (alreadySet : List (List Char)) {ops : List Op}
    (hguard : EachStep (step T) (Guard T) (arrived cookies hd heap) ops) :
    Along (step T) (AttributesFollow T initialCookies alreadySet)
    (arrived cookies hd heap) ops := by
  refine along_of_invariant (fun r h => Inv.attributesFollow h initialCookies alreadySet)
    (fun r op h hg => Inv.step h hg) ?_ hguard
  exact ⟨hnames, fun name v _ => .inr ⟨fun key a ha => (by cases ha), fun a ha => (by cases ha)⟩⟩

def plainString : CfmlValue → String
  | .string s => s
  | _ => ""

lemma plainString_string (s : String) : plainString (.string s) = s := rfl

def plainTexts : Texts := ⟨.asciiLetters, plainString, plainString_string⟩

/-- `{value: "v", httpOnly: true}` -/
def httpOnly : ValueMap CfmlValue := [("value", .string "v"), ("httpOnly", .bool true)]

def fresh : Request := arrived [] ValueMap.distinct_nil fun _ => httpOnly

/-- A long-form write, a plain one with another text, and a long-form one again. -/
theorem attributes_follow_rewritten :
    Along (step plainTexts) (AttributesFollow plainTexts [] []) fresh
      [.write "x" (.live 0), .write "X" (.plain (.string "w")), .change 1 [], .write "x" (.live 0),
        .delete "x"] := by
  refine attributes_follow ValueMap.distinct_nil (fun _ => httpOnly)
    (by simp [ValueMap.keys]) [] [] ?_
  refine ⟨⟨rfl, fun h => by cases h⟩, ⟨rfl, fun _ a ha => ?_⟩, ?_, ⟨rfl, fun h => by cases h⟩,
    trivial,
    trivial⟩
  · obtain rfl : httpOnly = a := Option.some.inj ha
    decide
  · rintro (⟨k, hk⟩ | ⟨e, he, hlive⟩)
    · have hk' : Function.update (fun _ => none) (asciiFold "x") (some 0) k = some (1 : Nat) := hk
      rw [Function.update_apply] at hk'
      split at hk' <;> cases hk'
    · rcases mem_singleton.1 he with rfl
      cases hlive

/-- **What goes wrong**: the scope is cleared and the cookie written again as plain text, and the
header still carries the attributes of the write before; and a struct that is changed for another
cookie takes its attributes away from the first. -/
theorem cleared_attributes_come_back :
    ¬ AttributesFollow plainTexts [] []
        ([Op.write "x" (.live 0), .clear, .write "x" (.plain (.string "v"))].foldl (step plainTexts)
          fresh) ∧
      ¬ AttributesFollow plainTexts [] []
        ([Op.write "x" (.live 0), .change 0 (ValueMap.insert httpOnly "value" (.string "w"))].foldl
          (step plainTexts) fresh) := by
  refine ⟨fun h => ?_, fun h => ?_⟩
  · obtain ⟨key, hkey⟩ := (h "x" (.attributes httpOnly) (mem_singleton.2 rfl) httpOnly).1 rfl
    cases hkey
  · have hsource := (h "x" (.value (.string "v")) (mem_singleton.2 rfl) httpOnly).2 ⟨"x", rfl⟩
    cases hsource

end RustCfml.Cookies
