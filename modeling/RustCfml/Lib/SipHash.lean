import Mathlib

/-!
# SipHash-1-3

What `DefaultHasher::new()` computes: SipHash with one round per block and three at the end, with
zero keys. A `str` is hashed as its bytes followed by `0xff`.
-/

namespace SipHash

structure State where
  v0 : UInt64
  v1 : UInt64
  v2 : UInt64
  v3 : UInt64

def init : State := ⟨0x736f6d6570736575, 0x646f72616e646f6d, 0x6c7967656e657261, 0x7465646279746573⟩

def rotl (x : UInt64) (n : UInt64) : UInt64 := (x <<< n) ||| (x >>> (64 - n))

def round (s : State) : State :=
  let v0 := s.v0 + s.v1
  let v1 := rotl s.v1 13 ^^^ v0
  let v0 := rotl v0 32
  let v2 := s.v2 + s.v3
  let v3 := rotl s.v3 16 ^^^ v2
  let v0 := v0 + v3
  let v3 := rotl v3 21 ^^^ v0
  let v2 := v2 + v1
  let v1 := rotl v1 17 ^^^ v2
  let v2 := rotl v2 32
  ⟨v0, v1, v2, v3⟩

def absorb (s : State) (m : UInt64) : State :=
  let s := round { s with v3 := s.v3 ^^^ m }
  { s with v0 := s.v0 ^^^ m }

/-- Bytes as a number, the first one lowest. -/
def word : List UInt8 → UInt64
  | [] => 0
  | b :: bs => b.toUInt64 ||| (word bs <<< 8)

def blocks (len : UInt64) : List UInt8 → List UInt64
  | b₀ :: b₁ :: b₂ :: b₃ :: b₄ :: b₅ :: b₆ :: b₇ :: bs =>
    word [b₀, b₁, b₂, b₃, b₄, b₅, b₆, b₇] :: blocks len bs
  | bs => [(len <<< 56) ||| word bs]

def hash13 (bs : List UInt8) : UInt64 :=
  let s := (blocks (UInt64.ofNat bs.length) bs).foldl absorb init
  let s := round (round (round { s with v2 := s.v2 ^^^ 0xff }))
  s.v0 ^^^ s.v1 ^^^ s.v2 ^^^ s.v3

def hashStr (s : String) : UInt64 := hash13 (s.toList.flatMap String.utf8EncodeChar ++ [0xff])

end SipHash
