import T3dmium.PyValue

/-! SHA-256 on byte lists, for concrete runs, and HMAC on any hash. Results about the code take the
hash as a parameter. -/
namespace T3dmium

structure Digest where
  bytes : Bytes
  length_eq : bytes.length = 32
  deriving DecidableEq

lemma Digest.bytes_injective : Function.Injective Digest.bytes := by
  rintro ⟨x, hx⟩ ⟨y, hy⟩ h
  cases h
  rfl

namespace Sha256

def roundConstants : List UInt32 :=
  [0x428a2f98, 0x71374491, 0xb5c0fbcf, 0xe9b5dba5, 0x3956c25b, 0x59f111f1, 0x923f82a4, 0xab1c5ed5,
    0xd807aa98, 0x12835b01, 0x243185be, 0x550c7dc3, 0x72be5d74, 0x80deb1fe, 0x9bdc06a7, 0xc19bf174,
    0xe49b69c1, 0xefbe4786, 0x0fc19dc6, 0x240ca1cc, 0x2de92c6f, 0x4a7484aa, 0x5cb0a9dc, 0x76f988da,
    0x983e5152, 0xa831c66d, 0xb00327c8, 0xbf597fc7, 0xc6e00bf3, 0xd5a79147, 0x06ca6351, 0x14292967,
    0x27b70a85, 0x2e1b2138, 0x4d2c6dfc, 0x53380d13, 0x650a7354, 0x766a0abb, 0x81c2c92e, 0x92722c85,
    0xa2bfe8a1, 0xa81a664b, 0xc24b8b70, 0xc76c51a3, 0xd192e819, 0xd6990624, 0xf40e3585, 0x106aa070,
    0x19a4c116, 0x1e376c08, 0x2748774c, 0x34b0bcb5, 0x391c0cb3, 0x4ed8aa4a, 0x5b9cca4f, 0x682e6ff3,
    0x748f82ee, 0x78a5636f, 0x84c87814, 0x8cc70208, 0x90befffa, 0xa4506ceb, 0xbef9a3f7, 0xc67178f2]

/-- The eight working variables. -/
structure Vars where
  a : UInt32
  b : UInt32
  c : UInt32
  d : UInt32
  e : UInt32
  f : UInt32
  g : UInt32
  h : UInt32

def initial : Vars :=
  ⟨0x6a09e667, 0xbb67ae85, 0x3c6ef372, 0xa54ff53a, 0x510e527f, 0x9b05688c, 0x1f83d9ab, 0x5be0cd19⟩

def rotr (x n : UInt32) : UInt32 := (x >>> n) ||| (x <<< (32 - n))

/-- The message schedule, latest word first. -/
def schedule : ℕ → List UInt32 → List UInt32
  | 0, ws => ws
  | n + 1, ws =>
    let w15 := ws.getD 14 0
    let w2 := ws.getD 1 0
    let s0 := rotr w15 7 ^^^ rotr w15 18 ^^^ (w15 >>> 3)
    let s1 := rotr w2 17 ^^^ rotr w2 19 ^^^ (w2 >>> 10)
    schedule n ((ws.getD 15 0 + s0 + ws.getD 6 0 + s1) :: ws)

def round (v : Vars) (kw : UInt32 × UInt32) : Vars :=
  let s1 := rotr v.e 6 ^^^ rotr v.e 11 ^^^ rotr v.e 25
  let ch := (v.e &&& v.f) ^^^ ((~~~v.e) &&& v.g)
  let t1 := v.h + s1 + ch + kw.1 + kw.2
  let s0 := rotr v.a 2 ^^^ rotr v.a 13 ^^^ rotr v.a 22
  let maj := (v.a &&& v.b) ^^^ (v.a &&& v.c) ^^^ (v.b &&& v.c)
  ⟨t1 + s0 + maj, v.a, v.b, v.c, v.d + t1, v.e, v.f, v.g⟩

def wordOf (bytes : Bytes) : UInt32 := bytes.foldl (fun w b => (w <<< 8) ||| b.toUInt32) 0

def bytesOf (w : UInt32) : Bytes :=
  [(w >>> 24).toUInt8, (w >>> 16).toUInt8, (w >>> 8).toUInt8, w.toUInt8]

def chunk (n : ℕ) (bytes : Bytes) (i : ℕ) : Bytes := (bytes.drop (n * i)).take n

def compress (v : Vars) (block : Bytes) : Vars :=
  let ws := (List.range 16).map fun i => wordOf (chunk 4 block i)
  let u := (roundConstants.zip (schedule 48 ws.reverse).reverse).foldl round v
  ⟨v.a + u.a, v.b + u.b, v.c + u.c, v.d + u.d, v.e + u.e, v.f + u.f, v.g + u.g, v.h + u.h⟩

def pad (msg : Bytes) : Bytes :=
  msg ++ 0x80 :: (List.replicate ((119 - msg.length % 64) % 64) 0 ++
    (List.range 8).map fun i => UInt8.ofNat (8 * msg.length / 256 ^ (7 - i)))

end Sha256

def sha256 (msg : Bytes) : Digest :=
  let padded := Sha256.pad msg
  let v := (List.range (padded.length / 64)).foldl
    (fun v i => Sha256.compress v (Sha256.chunk 64 padded i)) Sha256.initial
  ⟨Sha256.bytesOf v.a ++ Sha256.bytesOf v.b ++ Sha256.bytesOf v.c ++ Sha256.bytesOf v.d ++
    Sha256.bytesOf v.e ++ Sha256.bytesOf v.f ++ Sha256.bytesOf v.g ++ Sha256.bytesOf v.h, rfl⟩

/-- `hmac.new(key, msg, hash).digest()`, for a hash that takes its input in blocks of 64 bytes -/
def hmac (hash : Bytes → Digest) (key msg : Bytes) : Digest :=
  let key := if 64 < key.length then (hash key).bytes else key
  let block := key ++ List.replicate (64 - key.length) 0
  hash (block.map (· ^^^ 0x5c) ++ (hash (block.map (· ^^^ 0x36) ++ msg)).bytes)

example : (sha256 [0x61, 0x62, 0x63]).bytes =
    [0xba, 0x78, 0x16, 0xbf, 0x8f, 0x01, 0xcf, 0xea, 0x41, 0x41, 0x40, 0xde, 0x5d, 0xae, 0x22,
      0x23, 0xb0, 0x03, 0x61, 0xa3, 0x96, 0x17, 0x7a, 0x9c, 0xb4, 0x10, 0xff, 0x61, 0xf2, 0x00,
      0x15, 0xad] := by
  decide +kernel

end T3dmium
