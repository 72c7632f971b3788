import RustCfml.Common.Key

/-!
# Which peers an MCP endpoint lets in

`ipAllowed_iff` says what the masks come to: **the peer is let in when the list is empty, or when
some rule is its address or a block whose leading bits it has.**
-/

namespace RustCfml.Mcp

/-- `std::net::IpAddr`. -/
inductive IpAddr where
  | v4 (addr : BitVec 32)
  | v6 (addr : BitVec 128)
deriving DecidableEq

/-! ## `str::parse::<IpAddr>`

The parser of the standard library: each reader returns what it read and the rest of the text. -/

namespace Parse

def toDigit (radix : Nat) (c : Char) : Option Nat :=
  let n := c.toNat
  let d :=
    if 48 ≤ n ∧ n ≤ 57 then some (n - 48)
    else if 97 ≤ n ∧ n ≤ 122 then some (n - 97 + 10)
    else if 65 ≤ n ∧ n ≤ 90 then some (n - 65 + 10)
    else none
  d.filter (· < radix)

def readDigits (radix : Nat) : Nat → Nat → List Char → (Nat × Nat) × List Char
  | value, count, [] => ((value, count), [])
  | value, count, c :: cs =>
    match toDigit radix c with
    | some d => readDigits radix (value * radix + d) (count + 1) cs
    | none => ((value, count), c :: cs)

def readNumber (radix maxDigits limit : Nat) (allowZeroPrefix : Bool) (cs : List Char) :
    Option (Nat × List Char) :=
  let r := readDigits radix 0 0 cs
  let value := r.1.1
  let count := r.1.2
  if maxDigits < count ∨ count = 0 ∨ limit ≤ value then none
  else if !allowZeroPrefix && cs.head? = some '0' && 1 < count then none
  else some (value, r.2)

/-- A separator in front of every part but the first. -/
def readSeparator {α : Type} (sep : Char) (index : Nat) (inner : List Char → Option (α × List Char))
    (cs : List Char) : Option (α × List Char) :=
  if index = 0 then inner cs
  else
    match cs with
    | c :: cs => if c = sep then inner cs else none
    | [] => none

def readOctets : Nat → Nat → Nat → List Char → Option (Nat × List Char)
  | 0, _, value, cs => some (value, cs)
  | n + 1, index, value, cs => do
    let (octet, rest) ← readSeparator '.' index (readNumber 10 3 256 false) cs
    readOctets n (index + 1) (value * 256 + octet) rest

def readIpv4Addr (cs : List Char) : Option (Nat × List Char) := readOctets 4 0 0 cs

def readGroups : Nat → Nat → List Char → (List Nat × Bool) × List Char
  | 0, _, cs => (([], false), cs)
  | n + 1, index, cs =>
    let ipv4 := if n = 0 then none else readSeparator ':' index readIpv4Addr cs
    match ipv4 with
    | some (addr, rest) => (([addr / 65536, addr % 65536], true), rest)
    | none =>
      match readSeparator ':' index (readNumber 16 4 65536 true) cs with
      | some (group, rest) =>
        let r := readGroups n (index + 1) rest
        ((group :: r.1.1, r.1.2), r.2)
      | none => (([], false), cs)

def readIpv6Addr (cs : List Char) : Option (List Nat × List Char) :=
  let r := readGroups 8 0 cs
  let head := r.1.1
  if head.length = 8 then some (head, r.2)
  -- an IPv4 part does not stand before `::`
  else if r.1.2 then none
  else
    match r.2 with
    | ':' :: ':' :: rest =>
      let t := readGroups (7 - head.length) 0 rest
      let tail := t.1.1
      some (head ++ List.replicate (8 - head.length - tail.length) 0 ++ tail, t.2)
    | _ => none

def groupsToNat (groups : List Nat) : Nat := groups.foldl (fun acc g => acc * 65536 + g) 0

def ipAddr (cs : List Char) : Option IpAddr :=
  match readIpv4Addr cs with
  | some (addr, rest) => if rest.isEmpty then some (.v4 (.ofNat 32 addr)) else none
  | none =>
    match readIpv6Addr cs with
    | some (groups, rest) =>
      if rest.isEmpty then some (.v6 (.ofNat 128 (groupsToNat groups))) else none
    | none => none

/-- `str::parse::<u8>`: a plus sign may stand in front. -/
def u8 (cs : List Char) : Option Nat :=
  let digits :=
    match cs with
    | '+' :: rest => rest
    | _ => cs
  let r := readDigits 10 0 0 digits
  if r.1.2 = 0 ∨ ¬ r.2.isEmpty ∨ 256 ≤ r.1.1 then none else some r.1.1

end Parse

def splitOnce (sep : Char) : List Char → Option (List Char × List Char)
  | [] => none
  | c :: cs => if c = sep then some ([], cs) else (splitOnce sep cs).map fun r => (c :: r.1, r.2)

def toIpv4Mapped (addr : BitVec 128) : Option (BitVec 32) :=
  if addr.extractLsb' 32 96 = 0xffff then some (addr.extractLsb' 0 32) else none

/-- A mapped address is its IPv4 address. -/
def normalize : IpAddr → IpAddr
  | .v6 addr => ((toIpv4Mapped addr).map .v4).getD (.v6 addr)
  | .v4 addr => .v4 addr

def sameAddress (a b : IpAddr) : Bool := normalize a = normalize b

/-- The comparison under the mask, at either width. -/
def inPrefix {w : Nat} (base peer : BitVec w) (bits : Nat) : Bool :=
  if bits > w then false
  else if bits = 0 then true
  else
    let mask := BitVec.allOnes w <<< (w - bits)
    base &&& mask = peer &&& mask

/-- The first bits agree, in one family. -/
def inCidr (base : IpAddr) (bits : Nat) (peer : IpAddr) : Bool :=
  match normalize base, normalize peer with
  | .v4 base, .v4 peer => inPrefix base peer bits
  | .v6 base, .v6 peer => inPrefix base peer bits
  | _, _ => false

/-- A rule is an address or a block; one that cannot be read allows nobody. -/
def ruleAllows (rule : String) (peer : IpAddr) : Bool :=
  match splitOnce '/' rule.toList with
  | some (base, bits) =>
    match Parse.ipAddr base, Parse.u8 bits with
    | some base, some bits => inCidr base bits peer
    | _, _ => false
  | none => ((Parse.ipAddr rule.toList).map fun a => sameAddress a peer).getD false

/-- An empty list allows everybody. -/
def ipAllowed (allowed : List String) (peer : IpAddr) : Bool :=
  if allowed.isEmpty then true else allowed.any fun rule => ruleAllows rule peer

def SameBlock {w : Nat} (bits : Nat) (a b : BitVec w) : Prop :=
  bits ≤ w ∧ ∀ i < bits, a.getMsbD i = b.getMsbD i

inductive Rule where
  | address (addr : IpAddr)
  | block (base : IpAddr) (bits : Nat)
deriving DecidableEq

def Rule.ofText (rule : String) : Option Rule :=
  match splitOnce '/' rule.toList with
  | some (base, bits) => do return .block (← Parse.ipAddr base) (← Parse.u8 bits)
  | none => (Parse.ipAddr rule.toList).map .address

def Rule.Matches (peer : IpAddr) : Rule → Prop
  | .address addr => normalize addr = normalize peer
  | .block base bits =>
    match normalize base, normalize peer with
    | .v4 base, .v4 peer => SameBlock bits base peer
    | .v6 base, .v6 peer => SameBlock bits base peer
    | _, _ => False

lemma inPrefix_iff {w : Nat} {base peer : BitVec w} {bits : Nat} :
    inPrefix base peer bits = true ↔ SameBlock bits base peer := by
  rw [inPrefix, SameBlock]
  by_cases hlong : bits > w
  · simp [hlong]
  have hle : bits ≤ w := Nat.le_of_not_lt hlong
  rw [if_neg hlong]
  by_cases hzero : bits = 0
  · simp [hzero]
  rw [if_neg hzero, decide_eq_true_iff]
  -- the mask has its first `bits` bits set
  have hmask : ∀ i, (BitVec.allOnes w <<< (w - bits)).getMsbD i = decide (i < bits) := by
    intro i
    rw [BitVec.getMsbD_shiftLeft, BitVec.getMsbD_allOnes]
    exact decide_eq_decide.2 (by omega)
  constructor
  · intro h
    refine ⟨hle, fun i hi => ?_⟩
    have hbit := congrArg (fun v => BitVec.getMsbD v i) h
    simpa [BitVec.getMsbD_and, hmask, hi] using hbit
  · rintro ⟨-, h⟩
    apply BitVec.eq_of_getMsbD_eq
    intro i _
    rw [BitVec.getMsbD_and, BitVec.getMsbD_and, hmask]
    by_cases hi : i < bits
    · rw [h i hi]
    · simp [hi]

lemma inCidr_iff {base peer : IpAddr} {bits : Nat} :
    inCidr base bits peer = true ↔ (Rule.block base bits).Matches peer := by
  rw [inCidr, Rule.Matches]
  split
  iterate 2 exact inPrefix_iff
  · simp

lemma ruleAllows_iff {rule : String} {peer : IpAddr} :
    ruleAllows rule peer = true ↔ ∃ r, Rule.ofText rule = some r ∧ r.Matches peer := by
  rw [ruleAllows, Rule.ofText]
  cases splitOnce '/' rule.toList with
  | none =>
    cases haddr : Parse.ipAddr rule.toList with
    | none => simp
    | some a => simp [sameAddress, Rule.Matches]
  | some s =>
    obtain ⟨base, bits⟩ := s
    cases hbase : Parse.ipAddr base with
    | none => simp [hbase]
    | some b =>
      cases hbits : Parse.u8 bits with
      | none => simp [hbase, hbits]
      | some n => simp [hbase, hbits, inCidr_iff]

lemma ipAllowed_iff {allowed : List String} {peer : IpAddr} : ipAllowed allowed peer = true ↔
      allowed = [] ∨ ∃ rule ∈ allowed, ∃ r, Rule.ofText rule = some r ∧ r.Matches peer := by
  rw [ipAllowed]
  by_cases hempty : allowed = []
  · simp [hempty]
  · simp [hempty, ruleAllows_iff]

end RustCfml.Mcp
