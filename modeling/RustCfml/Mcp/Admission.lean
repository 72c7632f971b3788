import RustCfml.Common.Value
import RustCfml.Lib.Lowercase
import RustCfml.Lib.Wildcard
import RustCfml.Mcp.Address

/-!
# Who is let in to an MCP endpoint

The order of the checks decides which refusal a request gets and nothing else: **a request is
admitted as an authenticated caller exactly when each check holds on its own**
(`admitted_iff`).
-/

namespace RustCfml.Mcp

open Lowercase Wildcard List
open Option hiding or_assoc

/-! ## The request and the configuration -/

/-- The headers in order, by lower-case name; a value is any bytes. -/
abbrev HeaderMap := List (String × List UInt8)

def HeaderMap.get (headers : HeaderMap) (name : String) : Option (List UInt8) :=
  (headers.find? fun h => h.1 = name).map Prod.snd

/-- `HeaderValue::to_str`: visible ASCII and the tab. -/
def toStr (value : List UInt8) : Option (List Char) :=
  if value.all fun b => (32 ≤ b && b < 127) || b = 9 then
    some (value.map fun b => Char.ofNat b.toNat)
  else none

def HeaderMap.text (headers : HeaderMap) (name : String) : Option (List Char) :=
  (headers.get name).bind toStr

structure McpToken where
  token : String
  roles : List String
  includedTools : List String
  excludedTools : List String

structure McpScope where
  includedTools : List String
  excludedTools : List String

structure McpCfg where
  enabled : Bool
  authTokens : List McpToken
  allowedIps : List String
  corsAllowedOrigins : List String
  includedTools : List String
  excludedTools : List String
  authenticate : String
  scopes : List (String × McpScope)

structure Caller where
  identity : Option CfmlValue
  included : List String
  excluded : List String
  noneIncluded : Bool := false
  authorization : Option (List Char) := none
  transport : String

inductive Decision where
  | done (caller : Caller)
  | resolve (credential : String)

inductive Denied where
  | disabled
  | address
  | token
  | origin

def Denied.message : Denied → String
  | .disabled => "MCP is not enabled on this server"
  | .address => "Not authorized"
  | .token => "Not authorized"
  | .origin => "Origin not allowed"

/-- The conversions of values that are looked at here, and the case tables of the build. -/
structure Runtime where
  isTrue : CfmlValue → Bool
  asString : CfmlValue → String
  tables : CaseTables

variable (R : Runtime)

/-! ## Origins -/

/-- Cut at the first `//`. -/
def splitSlashes : List Char → Option (List Char × List Char)
  | [] => none
  | [_] => none
  | c :: d :: cs =>
    if c = '/' ∧ d = '/' then some ([], cs)
    else (splitSlashes (d :: cs)).map fun r => (c :: r.1, r.2)

def authority (origin : List Char) : List Char :=
  match splitSlashes origin with
  | none => origin
  | some (_, rest) =>
    match splitSlashes rest with
    | none => rest
    | some (part, _) => part

def rsplitOnce (sep : Char) (cs : List Char) : Option (List Char × List Char) :=
  (splitOnce sep cs.reverse).map fun r => (r.2.reverse, r.1.reverse)

def localhost : List Char := "localhost".toList
def loopbackV4 : List Char := "127.0.0.1".toList
def bracketedV6 : List Char := "[::1]".toList
def bareV6 : List Char := "::1".toList

def originIsLocal (origin : List Char) : Bool :=
  let host := ((rsplitOnce ':' (authority origin)).map Prod.fst).getD (authority origin)
  host = localhost || host = loopbackV4 || host = bracketedV6 || host = bareV6

/-- The loop of `glob_match`: `star` holds the pattern behind the last `*` and the value where that
one had stopped. -/
def globLoop (p v : List Char) (star : Option (List Char × List Char)) : Bool :=
  match v with
  | [] => (p.dropWhile (· = '*')).isEmpty
  | x :: v' =>
    match p with
    | c :: p' =>
      if c = '?' ∨ c = x then globLoop p' v' star
      else if c = '*' then globLoop p' (x :: v') (some (p', x :: v'))
      else
        match star with
        | some (s, _ :: r) => globLoop s r (some (s, r))
        | _ => false
    | [] =>
      match star with
      | some (s, _ :: r) => globLoop s r (some (s, r))
      | _ => false
termination_by (left v star, p.length)
decreasing_by
  iterate 2
    · rw [Prod.lex_def]
      cases star <;> simp only [left, length_cons] <;> omega
  all_goals
    rw [Prod.lex_def]
    simp only [left, length_cons]
    omega

def globMatch (pattern : String) (value : List Char) : Bool :=
  globLoop (toLowercase R.tables pattern.toList) (toLowercase R.tables value) none

def originAllowed (cfg : McpCfg) (origin : List Char) : Bool :=
  if originIsLocal origin then true
  else cfg.corsAllowedOrigins.any fun allowed => allowed = "*" || globMatch R allowed origin

/-! ## Credentials -/

def bearer (headers : HeaderMap) : Option String := do
  let value ← headers.text "authorization"
  let (scheme, token) ← splitOnce ' ' value
  if eqIgnoreAsciiCase (.ofList scheme) "bearer" then
    if trim token = [] then none else some (.ofList (trim token))
  else none

def constantTimeEq (a b : String) : Bool :=
  let a := a.toByteArray.data.toList
  let b := b.toByteArray.data.toList
  if a.length ≠ b.length then false
  else (a.zip b).foldl (fun acc p => acc ||| (p.1 ^^^ p.2)) (0 : UInt8) = 0

def identity (roles : List String) : CfmlValue :=
  .struct [("authenticated", .bool true), ("roles", .array (roles.map .string))]

def callerFor (cfg : McpCfg) (token : McpToken) : Caller where
  identity := some (identity token.roles)
  included := if token.includedTools.isEmpty then cfg.includedTools else token.includedTools
  excluded := if token.excludedTools.isEmpty then cfg.excludedTools else token.excludedTools
  transport := "http"

def Caller.anonymous (cfg : McpCfg) : Caller where
  identity := none
  included := cfg.includedTools
  excluded := cfg.excludedTools
  transport := "http"

def hasHook (cfg : McpCfg) : Bool := !(trim cfg.authenticate.toList).isEmpty

def resolveStatic (cfg : McpCfg) (presented : String) : Option Caller :=
  (cfg.authTokens.find? fun t => constantTimeEq t.token presented).map (callerFor cfg)

/-- The pieces between separators, the empty ones left out. -/
def pieces (sep : Char → Bool) : List Char → List Char → List String
  | acc, [] => if acc.isEmpty then [] else [.ofList acc.reverse]
  | acc, c :: cs =>
    if sep c then (if acc.isEmpty then [] else [.ofList acc.reverse]) ++ pieces sep [] cs
    else pieces sep (c :: acc) cs

def stringList : Option CfmlValue → List String
  | some (.array elems) => (elems.map R.asString).filter fun s => !s.isEmpty
  | some .null => []
  | none => []
  | some other => pieces (fun c => c = ',' || isWhitespace c) [] (R.asString other).toList

def scopeFilters (cfg : McpCfg) (scopes : List String) : List String × List String :=
  scopes.foldl (fun acc scope =>
    match cfg.scopes.find? fun s => eqIgnoreAsciiCase s.1 scope with
    | some (_, grant) => (acc.1 ++ grant.includedTools, acc.2 ++ grant.excludedTools)
    | none => acc) ([], cfg.excludedTools)

def callerFromIdentity (cfg : McpCfg) : CfmlValue → Option Caller
  | .struct entries =>
    let id : ValueMap CfmlValue := entries
    if ((id.get? "authenticated").map R.isTrue).getD true then
      let roles := stringList R (id.get? "roles")
      let id := (id.insert "authenticated" (.bool true)).insert "roles" (.array (roles.map .string))
      let ownIncluded := stringList R (id.get? "includedTools")
      let ownExcluded := stringList R (id.get? "excludedTools")
      let scopes := stringList R ((id.get? "scopes").or (id.get? "scope"))
      let narrowed := !cfg.scopes.isEmpty && !scopes.isEmpty
      let filters :=
        if narrowed then scopeFilters cfg scopes else (cfg.includedTools, cfg.excludedTools)
      some {
        identity := some (.struct id)
        included := if ownIncluded.isEmpty then filters.1 else ownIncluded
        excluded := if ownExcluded.isEmpty then filters.2 else ownExcluded
        noneIncluded := narrowed && filters.1.isEmpty && ownIncluded.isEmpty
        transport := "http" }
    else none
  | _ => none

def decideCredential (cfg : McpCfg) (headers : HeaderMap) : Except Denied Decision :=
  let authorization := headers.text "authorization"
  if cfg.authTokens.isEmpty && !hasHook cfg then
    .ok (.done { Caller.anonymous cfg with authorization })
  else
    match bearer headers with
    | none => .error .token
    | some presented =>
      match resolveStatic cfg presented with
      | some caller => .ok (.done { caller with authorization })
      | none => if hasHook cfg then .ok (.resolve presented) else .error .token

def decide (cfg : McpCfg) (peer : IpAddr) (headers : HeaderMap) : Except Denied Decision :=
  if !cfg.enabled then .error .disabled
  else if !ipAllowed cfg.allowedIps peer then .error .address
  else
    match headers.text "origin" with
    | some origin =>
      if !originAllowed R cfg origin then .error .origin else decideCredential cfg headers
    | none => decideCredential cfg headers

def admission (cfg : McpCfg) (peer : IpAddr) (headers : HeaderMap)
    (hook : String → Option CfmlValue) :
    Except Denied Caller :=
  match decide R cfg peer headers with
  | .error denied => .error denied
  | .ok (.done caller) => .ok caller
  | .ok (.resolve credential) =>
    match (hook credential).bind (callerFromIdentity R cfg) with
    | some caller => .ok { caller with authorization := headers.text "authorization" }
    | none => .error .token

/-! ## What each check means -/

/-- A serialised origin: a scheme, `://`, a host and, after a colon, the digits of a port. -/
structure Origin where
  scheme : List Char
  host : List Char
  port : Option (List Char)
  scheme_noSlash : '/' ∉ scheme
  host_noSlash : '/' ∉ host
  /-- Only an address in brackets has colons. -/
  host_colon : ':' ∈ host → ∃ body, host = '[' :: body ++ [']'] ∧ ']' ∉ body
  port_digits : ∀ ds, port = some ds → ds ≠ [] ∧ ∀ d ∈ ds, d.isDigit = true

def Origin.portText (o : Origin) : List Char := (o.port.map (':' :: ·)).getD []

def Origin.text (o : Origin) : List Char := o.scheme ++ ':' :: '/' :: '/' :: (o.host ++ o.portText)

/-- The page was served from this machine. -/
def IsLocal (origin : List Char) : Prop :=
  ∃ o : Origin, o.text = origin ∧ (o.host = localhost ∨ o.host = loopbackV4 ∨ o.host = bracketedV6)

/-- The text is a serialised origin, but not the bracketed loopback address without a port, or it
does not mention a name of this machine at all. -/
def Readable (origin : List Char) : Prop :=
  ((∃ o : Origin, o.text = origin) ∧ ¬ "://[::1]".toList <:+ origin) ∨
    ∀ name ∈ [localhost, loopbackV4, bracketedV6, bareV6], ¬ name <:+: origin

def globElems (pattern : List Char) : List (Elem Char) :=
  pattern.map fun c => if c = '*' then .any else if c = '?' then .one else .lit c

def GlobMatches (pattern : String) (value : List Char) : Prop :=
  Matches (· = ·) (globElems (toLowercase R.tables pattern.toList)) (toLowercase R.tables value)

def OriginOk (cfg : McpCfg) (origin : List Char) : Prop :=
  IsLocal origin ∨ ∃ allowed ∈ cfg.corsAllowedOrigins, GlobMatches R allowed origin

/-- The hook vouches for the caller: with a struct that does not say otherwise. -/
def Accepted (answer : CfmlValue) : Prop :=
  ∃ entries, answer = .struct entries ∧
    ∀ flag, ValueMap.get? entries "authenticated" = some flag → R.isTrue flag = true

def CredentialOk (cfg : McpCfg) (headers : HeaderMap) (hook : String → Option CfmlValue) : Prop :=
  ∃ credential, bearer headers = some credential ∧ ((∃ t ∈ cfg.authTokens, t.token = credential) ∨
      (hasHook cfg = true ∧ ∃ answer, hook credential = some answer ∧ Accepted R answer))

lemma foldl_or_eq_zero {f : UInt8 × UInt8 → UInt8} : ∀ {ps : List (UInt8 × UInt8)} {acc : UInt8},
    ps.foldl (fun acc p => acc ||| f p) acc = 0 ↔ acc = 0 ∧ ∀ p ∈ ps, f p = 0
  | [], acc => by simp
  | p :: ps, acc => by
    rw [foldl_cons, foldl_or_eq_zero, UInt8.or_eq_zero_iff, forall_mem_cons, and_assoc]

lemma zip_same {α : Type} : ∀ {a b : List α}, a.length = b.length →
    ((∀ p ∈ a.zip b, p.1 = p.2) ↔ a = b)
  | [], [], _ => by simp
  | x :: a, y :: b, h => by
    rw [zip_cons_cons, forall_mem_cons, zip_same (Nat.succ.inj h)]
    simp

lemma constantTimeEq_iff {a b : String} : constantTimeEq a b = true ↔ a = b := by
  have hbytes : a = b ↔ a.toByteArray.data.toList = b.toByteArray.data.toList := by
    rw [Array.toList_inj, ← ByteArray.ext_iff, String.toByteArray_inj]
  rw [constantTimeEq, hbytes]
  by_cases hlen : a.toByteArray.data.toList.length = b.toByteArray.data.toList.length
  · rw [if_neg (by simpa using hlen), decide_eq_true_iff, foldl_or_eq_zero, ← zip_same hlen]
    simp
  · rw [if_pos hlen]
    constructor
    · intro h
      cases h
    · intro h
      exact absurd (congrArg length h) hlen

variable {cfg : McpCfg} {sep : Char} {headers : HeaderMap} {peer : IpAddr}

lemma resolveStatic_spec {presented : String} :
    (∀ caller, resolveStatic cfg presented = some caller →
      (∃ t ∈ cfg.authTokens, t.token = presented) ∧ caller.identity.isSome = true) ∧
    (resolveStatic cfg presented = none → ¬ ∃ t ∈ cfg.authTokens, t.token = presented) := by
  constructor
  · intro caller h
    obtain ⟨t, ht, rfl⟩ := map_eq_some_iff.1 h
    have hfound : constantTimeEq t.token presented = true := by simpa using find?_some ht
    exact ⟨⟨t, mem_of_find?_eq_some ht, constantTimeEq_iff.1 hfound⟩, rfl⟩
  · rintro h ⟨t, ht, htoken⟩
    have hnone := find?_eq_none.1 (map_eq_none_iff.1 h) t ht
    exact hnone (constantTimeEq_iff.2 htoken)

lemma callerFromIdentity_spec {answer : CfmlValue} :
    (∀ caller, callerFromIdentity R cfg answer = some caller →
      Accepted R answer ∧ caller.identity.isSome = true) ∧
    (callerFromIdentity R cfg answer = none → ¬ Accepted R answer) := by
  cases answer with
  | struct entries =>
    have haccepted : Accepted R (.struct entries) ↔
        ((ValueMap.get? entries "authenticated").map R.isTrue).getD true = true := by
      cases hflag : ValueMap.get? entries "authenticated" with
      | none | some flag => simp [Accepted, hflag]
    rw [haccepted, callerFromIdentity]
    split
    next h =>
      refine ⟨fun caller hcaller => ⟨h, ?_⟩, nofun⟩
      obtain rfl := some.inj hcaller
      rfl
    next h => exact ⟨nofun, fun _ => h⟩
  | _ =>
    refine ⟨nofun, fun _ => ?_⟩
    rintro ⟨entries, h, -⟩
    cases h

lemma splitOnce_spec : ∀ {cs : List Char},
    (∀ a b, splitOnce sep cs = some (a, b) → cs = a ++ sep :: b ∧ sep ∉ a) ∧
    (splitOnce sep cs = none → sep ∉ cs)
  | [] => ⟨nofun, fun _ => not_mem_nil⟩
  | c :: cs => by
    rw [splitOnce]
    split
    next hc =>
      refine ⟨fun a b h => ?_, nofun⟩
      obtain ⟨rfl, rfl⟩ := Prod.mk.inj (some.inj h)
      exact ⟨hc ▸ rfl, not_mem_nil⟩
    next hc =>
      obtain ⟨hsome, hnone⟩ := @splitOnce_spec cs
      constructor
      · intro a b h
        obtain ⟨⟨a', b'⟩, hr, heq⟩ := map_eq_some_iff.1 h
        obtain ⟨rfl, rfl⟩ := Prod.mk.inj heq
        obtain ⟨rfl, hnot⟩ := hsome a' b' hr
        refine ⟨rfl, fun hmem => ?_⟩
        rcases mem_cons.1 hmem with h | h
        · exact hc h.symm
        · exact hnot h
      · intro h hmem
        rcases mem_cons.1 hmem with h' | h'
        · exact hc h'.symm
        · exact hnone (map_eq_none_iff.1 h) h'

lemma rsplitOnce_spec {cs : List Char} :
    (∀ a b, rsplitOnce sep cs = some (a, b) → cs = a ++ sep :: b ∧ sep ∉ b) ∧
    (rsplitOnce sep cs = none → sep ∉ cs) := by
  obtain ⟨hsome, hnone⟩ := @splitOnce_spec sep cs.reverse
  constructor
  · intro a b h
    obtain ⟨⟨a', b'⟩, hr, heq⟩ := map_eq_some_iff.1 h
    obtain ⟨rfl, rfl⟩ := Prod.mk.inj heq
    obtain ⟨hcs, hnot⟩ := hsome a' b' hr
    refine ⟨?_, by simpa using hnot⟩
    rw [← reverse_reverse cs, hcs]
    simp
  · intro h
    simpa using hnone (map_eq_none_iff.1 h)

lemma splitOnce_append (b : List Char) : ∀ {a : List Char}, sep ∉ a →
    splitOnce sep (a ++ sep :: b) = some (a, b)
  | [], _ => if_pos rfl
  | c :: a, h => by
    have hc : c ≠ sep := fun hc => h (hc ▸ mem_cons_self)
    rw [cons_append, splitOnce, if_neg hc,
      splitOnce_append b fun hmem => h (mem_cons_of_mem c hmem)]
    rfl

lemma rsplitOnce_append (a : List Char) {b : List Char} (h : sep ∉ b) :
    rsplitOnce sep (a ++ sep :: b) = some (a, b) := by
  have hrev : (a ++ sep :: b).reverse = b.reverse ++ sep :: a.reverse := by simp
  rw [rsplitOnce, hrev, splitOnce_append _ (by simpa using h)]
  simp

variable {origin value : List Char} {c : Char} {star : Option (List Char × List Char)}
  {pattern : String} {hook : String → Option CfmlValue}

lemma splitSlashes_none : ∀ {cs : List Char}, '/' ∉ cs → splitSlashes cs = none
  | [], _ => rfl
  | [_], _ => rfl
  | c :: d :: cs, h => by
    have hc : c ≠ '/' := fun hc => h (hc ▸ mem_cons_self)
    rw [splitSlashes, if_neg fun hcd => hc hcd.1,
      splitSlashes_none fun hmem => h (mem_cons_of_mem c hmem)]
    rfl

lemma splitSlashes_append (rest : List Char) : ∀ {cs : List Char}, '/' ∉ cs →
    splitSlashes (cs ++ '/' :: '/' :: rest) = some (cs, rest)
  | [], _ => rfl
  | [c], h => by
    have hc : c ≠ '/' := fun hc => h (hc ▸ mem_cons_self)
    simp [splitSlashes, hc]
  | c :: d :: cs, h => by
    have hc : c ≠ '/' := fun hc => h (hc ▸ mem_cons_self)
    have ih := splitSlashes_append rest fun hmem => h (mem_cons_of_mem c hmem)
    rw [cons_append] at ih
    rw [cons_append, cons_append, splitSlashes, if_neg fun h => hc h.1, ih]
    rfl

lemma splitSlashes_some : ∀ {cs a b : List Char}, splitSlashes cs = some (a, b) →
    cs = a ++ '/' :: '/' :: b
  | c :: d :: cs, a, b, h => by
    rw [splitSlashes] at h
    split at h
    · next hslash =>
      cases h
      rw [hslash.1, hslash.2]
      rfl
    · obtain ⟨⟨a', b'⟩, hr, heq⟩ := map_eq_some_iff.1 h
      obtain ⟨rfl, rfl⟩ := Prod.mk.inj heq
      rw [splitSlashes_some hr]
      rfl

lemma authority_infix (origin : List Char) : authority origin <:+: origin := by
  rw [authority]
  split
  · exact infix_rfl
  · next front rest hcut =>
    have hrest : rest <:+: origin := ⟨front ++ ['/', '/'], [], by simp [splitSlashes_some hcut]⟩
    split
    · exact hrest
    · next part more hpart =>
      exact IsInfix.trans ⟨[], '/' :: '/' :: more, by rw [splitSlashes_some hpart]; rfl⟩ hrest

lemma Origin.portText_noSlash (o : Origin) : '/' ∉ o.portText := by
  rw [Origin.portText]
  cases hport : o.port with
  | none => exact not_mem_nil
  | some ds =>
    intro h
    rcases mem_cons.1 h with h | h
    · cases h
    · exact absurd ((o.port_digits ds hport).2 _ h) (by decide)

lemma Origin.authority_text (o : Origin) : authority o.text = o.host ++ o.portText := by
  have hscheme : '/' ∉ o.scheme ++ [':'] := by
    rw [mem_append, not_or]
    exact ⟨o.scheme_noSlash, by decide⟩
  have hrest : '/' ∉ o.host ++ o.portText := by
    rw [mem_append, not_or]
    exact ⟨o.host_noSlash, o.portText_noSlash⟩
  have htext : o.text = (o.scheme ++ [':']) ++ '/' :: '/' ::
    (o.host ++ o.portText) := by simp [Origin.text]
  rw [authority, htext, splitSlashes_append _ hscheme]
  dsimp only
  rw [splitSlashes_none hrest]

/-- What `origin_is_local` takes for the host. -/
def cutHost (auth : List Char) : List Char := ((rsplitOnce ':' auth).map Prod.fst).getD auth

lemma cutHost_prefix (auth : List Char) : cutHost auth <+: auth := by
  rw [cutHost]
  cases hcut : rsplitOnce ':' auth with
  | none => exact prefix_rfl
  | some cut => exact ⟨_, (rsplitOnce_spec.1 cut.1 cut.2 hcut).1.symm⟩

lemma cutHost_port {host ds : List Char} (h : ':' ∉ ds) : cutHost (host ++ ':' :: ds) = host := by
  rw [cutHost, rsplitOnce_append host h]
  rfl

lemma cutHost_noColon {auth : List Char} (h : ':' ∉ auth) : cutHost auth = auth := by
  rw [cutHost]
  cases hcut : rsplitOnce ':' auth with
  | none => rfl
  | some cut =>
    have hauth := (rsplitOnce_spec.1 cut.1 cut.2 hcut).1
    exact absurd (hauth ▸ mem_append_right _ mem_cons_self) h

lemma originIsLocal_eq (origin : List Char) : originIsLocal origin = true ↔
    cutHost (authority origin) ∈ [localhost, loopbackV4, bracketedV6, bareV6] := by
  simp [originIsLocal, cutHost, or_assoc]

/-- An address in brackets without a port is cut at a colon of its own, and what is left has no
closing bracket. -/
lemma cutHost_bracketed {body : List Char} (hbody : ']' ∉ body) (hcolon : ':' ∈ body) :
    ']' ∉ cutHost ('[' :: body ++ [']']) ∧ '[' ∈ cutHost ('[' :: body ++ [']']) := by
  have hmem : ':' ∈ '[' :: body ++ [']'] := mem_append_left _ (mem_cons_of_mem _ hcolon)
  rw [cutHost]
  cases hcut : rsplitOnce ':' ('[' :: body ++ [']']) with
  | none => exact absurd hmem (rsplitOnce_spec.2 hcut)
  | some cut =>
    obtain ⟨front, back⟩ := cut
    have hsplit := (rsplitOnce_spec.1 front back hcut).1
    have hclose : ']' ∉ '[' :: body := fun h => (mem_cons.1 h).elim (by decide) hbody
    rw [map_some, getD_some]
    rcases eq_nil_or_concat' back with rfl | ⟨back, last, rfl⟩
    · have hlast := (append_inj' hsplit rfl).2
      cases (cons.inj hlast).1
    · have hfront : '[' :: body = front ++ ':' :: back := by
        have hassoc : front ++ ':' :: (back ++ [last]) = (front ++ ':' :: back) ++ [last] := by simp
        rw [hassoc] at hsplit
        exact (append_inj' hsplit rfl).1
      refine ⟨fun h => hclose (hfront ▸ mem_append_left _ h), ?_⟩
      cases front with
      | nil => cases (cons.inj hfront).1
      | cons c front => exact (cons.inj hfront).1 ▸ mem_cons_self

lemma Origin.host_of_cutHost (o : Origin)
    (h : cutHost (o.host ++ o.portText) ∈ [localhost, loopbackV4, bracketedV6, bareV6]) :
    o.host = localhost ∨ o.host = loopbackV4 ∨ o.host = bracketedV6 := by
  have hnames : ∀ name ∈ [localhost, loopbackV4, bracketedV6, bareV6], '[' ∈ name →
    ']' ∈ name := by decide
  have hcut : cutHost (o.host ++ o.portText) = o.host := by
    rw [Origin.portText] at h ⊢
    cases hport : o.port with
    | some ds => exact cutHost_port fun h => absurd ((o.port_digits ds hport).2 _ h) (by decide)
    | none =>
      rw [hport, map_none, getD_none, append_nil] at h
      rw [map_none, getD_none, append_nil]
      by_cases hcolon : ':' ∈ o.host
      · obtain ⟨body, hhost, hbody⟩ := o.host_colon hcolon
        have hin : ':' ∈ body := by simpa [hhost] using hcolon
        rw [hhost] at h
        obtain ⟨hclose, hopen⟩ := cutHost_bracketed hbody hin
        exact absurd (hnames _ h hopen) hclose
      · exact cutHost_noColon hcolon
  rw [hcut] at h
  simp only [mem_cons, not_mem_nil, or_false] at h
  rcases h with h | h | h | h
  · exact .inl h
  · exact .inr (.inl h)
  · exact .inr (.inr h)
  · obtain ⟨body, hhost, -⟩ := o.host_colon (h ▸ by decide)
    rw [h] at hhost
    cases (cons.inj hhost).1

lemma Origin.cutHost_of_local (o : Origin)
    (hhost : o.host = localhost ∨ o.host = loopbackV4 ∨ o.host = bracketedV6)
    (hbracket : ¬ "://[::1]".toList <:+ o.text) : cutHost (o.host ++ o.portText) = o.host := by
  rw [Origin.portText]
  cases hport : o.port with
  | some ds => exact cutHost_port fun h => absurd ((o.port_digits ds hport).2 _ h) (by decide)
  | none =>
    rw [map_none, getD_none, append_nil]
    rcases hhost with h | h | h
    · exact cutHost_noColon (h ▸ by decide)
    · exact cutHost_noColon (h ▸ by decide)
    · refine absurd ⟨o.scheme, ?_⟩ hbracket
      rw [Origin.text, Origin.portText, hport, h]
      rfl

lemma originIsLocal_iff (h : Readable origin) : originIsLocal origin = true ↔ IsLocal origin := by
  have hnamed : ∀ {host : List Char}, (host = localhost ∨ host = loopbackV4 ∨ host = bracketedV6) →
      host ∈ [localhost, loopbackV4, bracketedV6, bareV6] := by
    rintro host (rfl | rfl | rfl) <;> decide
  rw [originIsLocal_eq]
  rcases h with ⟨⟨o, rfl⟩, hbracket⟩ | hnone
  · constructor
    · intro hmem
      rw [o.authority_text] at hmem
      exact ⟨o, rfl, o.host_of_cutHost hmem⟩
    · rintro ⟨o', htext, hhost⟩
      rw [← htext] at hbracket ⊢
      rw [o'.authority_text, o'.cutHost_of_local hhost hbracket]
      exact hnamed hhost
  · constructor
    · intro hmem
      have hin := authority_infix origin
      have hcut := cutHost_prefix (authority origin)
      exact absurd (hcut.isInfix.trans hin) (hnone _ hmem)
    · rintro ⟨o, rfl, hhost⟩
      have hin : o.host <:+: o.text :=
        ⟨o.scheme ++ [':', '/', '/'], o.portText, by simp [Origin.text]⟩
      exact absurd hin (hnone _ (hnamed hhost))

lemma globElems_star (p : List Char) : globElems ('*' :: p) = .any :: globElems p := rfl

lemma globElems_question (p : List Char) : globElems ('?' :: p) = .one :: globElems p := rfl

lemma globElems_letter (hs : c ≠ '*') (hq : c ≠ '?') (p : List Char) :
    globElems (c :: p) = .lit c :: globElems p := by
  rw [globElems, map_cons, if_neg hs, if_neg hq]
  rfl

lemma mapped_none (h : ∀ s y r, star = some (s, y :: r) → False) (bs : List (Elem Char)) (y : Char)
    (r : List Char)
    (hmap : (star.map fun b => (globElems b.1, b.2)) = some (bs, y :: r)) : False := by
  obtain ⟨⟨s, r'⟩, rfl, heq⟩ := map_eq_some_iff.1 hmap
  obtain ⟨-, rfl⟩ := Prod.mk.inj heq
  exact h s y r rfl

/-- Where no `*` of the value can meet one of the pattern, the loop is the greedy matching of the
pattern's elements. -/
lemma globLoop_eq {p v : List Char} (hv : '*' ∈ p → '*' ∉ v)
    (hstar : ∀ s r, star = some (s, r) → '*' ∉ r) :
    globLoop p v star = greedy (· == ·)
    (globElems p) v (star.map fun b => (globElems b.1, b.2)) := by
  fun_induction globLoop p v star with
  | case1 p star =>
    rw [greedy]
    induction p with
    | nil => rfl
    | cons c p ih =>
      by_cases hc : c = '*'
      · subst hc
        simpa [globElems] using ih
      · by_cases hq : c = '?' <;> simp [globElems, hc, hq]
  | case2 star x v c p hcx ih =>
    rw [ih (fun hp h => hv (mem_cons_of_mem c hp) (mem_cons_of_mem x h)) hstar]
    by_cases hq : c = '?'
    · subst hq
      rw [globElems_question, greedy_one]
    · obtain rfl := hcx.resolve_left hq
      have hc : c ≠ '*' := by
        rintro rfl
        exact hv mem_cons_self mem_cons_self
      rw [globElems_letter hc hq, greedy_lit_of_same (beq_self_eq_true c)]
  | case3 star x v p hne ih =>
    rw [globElems_star, greedy_any]
    have hv := hv mem_cons_self
    refine ih (fun _ => hv) fun s r h => ?_
    obtain ⟨-, rfl⟩ := Prod.mk.inj (some.inj h)
    exact hv
  | case4 x v c p hne hc s y r ih =>
    obtain ⟨hq, hx⟩ := not_or.1 hne
    have hr := hstar s (y :: r) rfl
    have hr' : '*' ∉ r := fun h => hr (mem_cons_of_mem y h)
    rw [globElems_letter hc hq, greedy_stuck (.inr ⟨c, _, rfl, by simpa using hx⟩)]
    refine ih (fun _ => hr') fun s' r' h => ?_
    obtain ⟨-, rfl⟩ := Prod.mk.inj (some.inj h)
    exact hr'
  | case5 star x v c p hne hc hnone =>
    obtain ⟨hq, hx⟩ := not_or.1 hne
    rw [globElems_letter hc hq]
    exact (greedy_stuck_end (.inr ⟨c, _, rfl, by simpa using hx⟩) (mapped_none hnone)).symm
  | case6 x v s y r ih =>
    have hr := hstar s (y :: r) rfl
    have hr' : '*' ∉ r := fun h => hr (mem_cons_of_mem y h)
    rw [show globElems [] = [] from rfl, greedy_stuck (.inl rfl)]
    refine ih (fun _ => hr') fun s' r' h => ?_
    obtain ⟨-, rfl⟩ := Prod.mk.inj (some.inj h)
    exact hr'
  | case7 star x v hnone =>
    exact (greedy_stuck_end (.inl rfl) (mapped_none hnone)).symm

/-- The `*` of the folded pattern and those of the folded value keep apart: one of the two has
none. -/
def StarsApart (pattern : String) (value : List Char) : Prop :=
  '*' ∈ toLowercase R.tables pattern.toList → '*' ∉ toLowercase R.tables value

lemma globMatch_of_starsApart (h : StarsApart R pattern value) :
    globMatch R pattern value = true ↔ GlobMatches R pattern value := by
  have hloop := @globLoop_eq none _ _ h nofun
  rw [globMatch, hloop, greedy_iff (by trivial), GlobMatches]
  simp [Later]

lemma originAllowed_iff (hstar : ∀ allowed ∈ cfg.corsAllowedOrigins, allowed ≠ "*" →
      StarsApart R allowed origin)
    (hreadable : Readable origin) : originAllowed R cfg origin = true ↔ OriginOk R cfg origin := by
  rw [originAllowed, OriginOk, ← originIsLocal_iff hreadable]
  by_cases hlocal : originIsLocal origin = true
  · simp [hlocal]
  rw [if_neg hlocal, List.any_eq_true, or_iff_right hlocal]
  refine exists_congr fun allowed => and_congr_right fun hallowed => ?_
  rw [Bool.or_eq_true, decide_eq_true_iff]
  by_cases hall : allowed = "*"
  · -- `*` alone is a pattern like the others
    subst hall
    have hpattern : toLowercase R.tables "*".toList = ['*'] :=
      @lowerFrom_ascii R.tables [] ['*'] (List.all_eq_true.1 (by decide))
    refine iff_of_true (.inl rfl) ?_
    rw [GlobMatches, hpattern]
    exact matches_any_iff.2 ⟨_, [], (append_nil _).symm, .nil⟩
  · rw [or_iff_right hall]
    exact globMatch_of_starsApart R (hstar allowed hallowed hall)

lemma decide_eq : (cfg.enabled = true ∧ ipAllowed cfg.allowedIps peer = true ∧
      (∀ origin, headers.text "origin" = some origin → originAllowed R cfg origin = true) ∧
      decide R cfg peer headers = decideCredential cfg headers) ∨
    (¬ (cfg.enabled = true ∧ ipAllowed cfg.allowedIps peer = true ∧
      (∀ origin, headers.text "origin" = some origin → originAllowed R cfg origin = true)) ∧
      ∃ denied, decide R cfg peer headers = .error denied) := by
  rw [decide]
  by_cases hon : cfg.enabled = true
  · by_cases hip : ipAllowed cfg.allowedIps peer = true
    · cases horigin : headers.text "origin" with
      | none => simp [hon, hip]
      | some origin =>
        by_cases hallowed : originAllowed R cfg origin = true
        iterate 2 simp [hon, hip, hallowed]
    · simp [hon, hip]
  · simp [hon]

lemma credential_iff (hdecide : decide R cfg peer headers = decideCredential cfg headers) :
    (∃ caller, admission R cfg peer headers hook = .ok caller ∧ caller.identity.isSome = true) ↔
      CredentialOk R cfg headers hook := by
  rw [admission, hdecide, decideCredential, CredentialOk]
  by_cases hopen : (cfg.authTokens.isEmpty && !hasHook cfg) = true
  · -- nobody can be authenticated
    rw [if_pos hopen]
    obtain ⟨hempty, hhook⟩ := Bool.and_eq_true_iff.1 hopen
    have htokens : cfg.authTokens = [] := List.isEmpty_iff.1 hempty
    have hno : hasHook cfg = false := by simpa using hhook
    simp [htokens, hno, Caller.anonymous]
  rw [if_neg hopen]
  cases hbearer : bearer headers with
  | none => simp
  | some credential =>
    obtain ⟨hstatic, hunknown⟩ := @resolveStatic_spec cfg credential
    cases hresolve : resolveStatic cfg credential with
    | some caller =>
      obtain ⟨htoken, hid⟩ := hstatic caller hresolve
      simp only [hresolve]
      exact iff_of_true ⟨_, rfl, hid⟩ ⟨credential, rfl, .inl htoken⟩
    | none =>
      have hnone := hunknown hresolve
      by_cases hhook : hasHook cfg = true
      · simp [hresolve, hhook, exists_eq_left', or_iff_right hnone]
        cases hanswer : hook credential with
        | none => simp
        | some answer =>
          obtain ⟨haccepted, hrefused⟩ := @callerFromIdentity_spec R cfg answer
          cases hcaller : callerFromIdentity R cfg answer with
          | some caller =>
            obtain ⟨hok, hid⟩ := haccepted caller hcaller
            simp only [bind_some, hcaller]
            exact iff_of_true ⟨_, rfl, hid⟩ ⟨answer, rfl, hok⟩
          | none =>
            have hnot := hrefused hcaller
            simp [hcaller, hnot]
      · simp [hresolve, hhook, hnone]

lemma admitted_iff_checks :
    (∃ caller, admission R cfg peer headers hook = .ok caller ∧ caller.identity.isSome = true) ↔
      cfg.enabled = true ∧ ipAllowed cfg.allowedIps peer = true ∧
      (∀ origin, headers.text "origin" = some origin → originAllowed R cfg origin = true) ∧
      CredentialOk R cfg headers hook := by
  rcases @decide_eq R cfg headers peer with
    ⟨hon, hip, horigin, hdecide⟩ | ⟨hfails, denied, hdecide⟩
  · rw [credential_iff R hdecide]
    exact ⟨fun h => ⟨hon, hip, horigin, h⟩, fun h => h.2.2.2⟩
  · constructor
    · rintro ⟨caller, hadmit, -⟩
      rw [admission, hdecide] at hadmit
      cases hadmit
    · rintro ⟨hon, hip, horigin, -⟩
      exact absurd ⟨hon, hip, horigin⟩ hfails

/-- The request has one `Origin` at most, of visible ASCII characters, which is readable and whose
`*` does not meet one of a pattern. -/
structure PlainOrigin (cfg : McpCfg) (headers : HeaderMap) : Prop where
  one : ∀ v, ("origin", v) ∈ headers → headers.get "origin" = some v
  plain : ∀ v, ("origin", v) ∈ headers → ∃ origin, toStr v = some origin ∧ Readable origin ∧
    ∀ allowed ∈ cfg.corsAllowedOrigins, allowed ≠ "*" → StarsApart R allowed origin

lemma HeaderMap.mem_of_get {name : String} {v : List UInt8}
    (h : headers.get name = some v) : (name, v) ∈ headers := by
  obtain ⟨⟨name', v'⟩, hfind, rfl⟩ := map_eq_some_iff.1 h
  obtain rfl : name' = name := by simpa using find?_some hfind
  exact mem_of_find?_eq_some hfind

/-- **MCP admission.** -/
theorem admitted_iff (cfg : McpCfg) (peer : IpAddr) (headers : HeaderMap)
    (hook : String → Option CfmlValue)
    (hplain : PlainOrigin R cfg headers) :
    (∃ caller, admission R cfg peer headers hook = .ok caller ∧ caller.identity.isSome = true) ↔
    cfg.enabled = true ∧
    (cfg.allowedIps = [] ∨ ∃ rule ∈ cfg.allowedIps, ∃ r, Rule.ofText rule = some r ∧
      r.Matches peer) ∧
    (∀ v, ("origin", v) ∈ headers → ∃ origin, toStr v = some origin ∧ OriginOk R cfg origin) ∧
    CredentialOk R cfg headers hook := by
  have horigin :
    (∀ origin, headers.text "origin" = some origin → originAllowed R cfg origin = true) ↔
      ∀ v, ("origin", v) ∈ headers → ∃ origin, toStr v = some origin ∧ OriginOk R cfg origin := by
    constructor
    · intro h v hv
      obtain ⟨origin, htext, hreadable, hstar⟩ := hplain.plain v hv
      refine ⟨origin, htext, (originAllowed_iff R hstar hreadable).1 (h origin ?_)⟩
      rw [HeaderMap.text, hplain.one v hv]
      exact htext
    · intro h origin htext
      obtain ⟨v, hget, hv⟩ := bind_eq_some_iff.1 htext
      have hmem := HeaderMap.mem_of_get hget
      obtain ⟨_, htext', hreadable, hstar⟩ := hplain.plain v hmem
      obtain ⟨_, htext'', hok⟩ := h v hmem
      obtain rfl := Option.some.inj (htext'.symm.trans hv)
      obtain rfl := Option.some.inj (htext''.symm.trans hv)
      exact (originAllowed_iff R hstar hreadable).2 hok
  rw [admitted_iff_checks, ipAllowed_iff, horigin]

def plainRuntime : Runtime := ⟨fun _ => true, fun _ => "", .asciiLetters⟩

def oneToken (allowedIps : List String) : McpCfg where
  enabled := true
  authTokens := [⟨"t", [], [], []⟩]
  allowedIps
  corsAllowedOrigins := []
  includedTools := []
  excludedTools := []
  authenticate := ""
  scopes := []

def bearerT : HeaderMap := [("authorization", [66, 101, 97, 114, 101, 114, 32, 116])]

lemma bearer_bearerT : bearer bearerT = some "t" := by decide +kernel

lemma credentialOk_oneToken (allowedIps : List String) :
    CredentialOk plainRuntime (oneToken allowedIps) bearerT fun _ => none :=
  ⟨"t", bearer_bearerT, .inl ⟨_, mem_singleton_self _, rfl⟩⟩

lemma not_mem_bearerT (v : List UInt8) : ("origin", v) ∉ bearerT := by
  intro h
  obtain ⟨hname, -⟩ := Prod.mk.inj (mem_singleton.1 h)
  exact absurd hname (by decide)

def devServer : Origin where
  scheme := "http".toList
  host := localhost
  port := some ['8', '0']
  scheme_noSlash := by decide
  host_noSlash := by decide
  host_colon := fun h => absurd h (by decide)
  port_digits := by
    rintro ds ⟨⟩
    simp [Char.isDigit]

/-- The token, from the page `http://localhost:80`. -/
def fromDevServer : HeaderMap :=
  ("origin", [104, 116, 116, 112, 58, 47, 47, 108, 111, 99, 97, 108, 104, 111, 115, 116, 58, 56,
    48]) :: bearerT

theorem admitted_iff_loopback : PlainOrigin plainRuntime (oneToken ["127.0.0.0/8"]) fromDevServer ∧
    ∃ caller, admission plainRuntime (oneToken ["127.0.0.0/8"])
    (.v4 0x7f000001) fromDevServer (fun _ => none) =
      .ok caller ∧ caller.identity.isSome = true := by
  have horigin : ∀ v, ("origin", v) ∈ fromDevServer → toStr v = some devServer.text := by
    intro v hv
    rcases mem_cons.1 hv with hv | hv
    · obtain ⟨-, rfl⟩ := Prod.mk.inj hv
      decide +kernel
    · exact absurd hv (not_mem_bearerT v)
  have hplain : PlainOrigin plainRuntime (oneToken ["127.0.0.0/8"]) fromDevServer := by
    refine ⟨fun v hv => ?_,
      fun v hv => ⟨_, horigin v hv, .inl ⟨⟨devServer, rfl⟩, by decide⟩, nofun⟩⟩
    rcases mem_cons.1 hv with hv | hv
    · obtain ⟨-, rfl⟩ := Prod.mk.inj hv
      rfl
    · exact absurd hv (not_mem_bearerT v)
  refine ⟨hplain, (admitted_iff plainRuntime _ _ _ _ hplain).2 ⟨rfl, .inr ?_, ?_, ?_⟩⟩
  · refine ⟨_, mem_singleton_self _, .block (.v4 0x7f000000) 8, by decide +kernel, ?_⟩
    exact inCidr_iff.1 (by decide)
  · exact fun v hv => ⟨_, horigin v hv, .inl ⟨devServer, rfl, .inl rfl⟩⟩
  · exact ⟨"t", by decide +kernel, .inl ⟨_, mem_singleton_self _, rfl⟩⟩

/-- **An empty list lets every address in**, though no rule matches it. -/
theorem admitted_without_rule :
    (∃ caller, admission plainRuntime (oneToken []) (.v4 0x08080808) bearerT (fun _ => none) =
      .ok caller ∧
      caller.identity.isSome = true) ∧
    ¬ ∃ rule ∈ (oneToken []).allowedIps, ∃ r, Rule.ofText rule = some r ∧
    r.Matches (.v4 0x08080808) := by
  refine ⟨(admitted_iff_checks plainRuntime).2 ⟨rfl, rfl, ?_, credentialOk_oneToken _⟩, ?_⟩
  · intro origin h
    obtain ⟨v, hget, -⟩ := bind_eq_some_iff.1 h
    exact absurd (HeaderMap.mem_of_get hget) (not_mem_bearerT v)
  · rintro ⟨rule, hrule, -⟩
    cases hrule

end RustCfml.Mcp
