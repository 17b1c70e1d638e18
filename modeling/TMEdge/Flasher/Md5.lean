import TMEdge.Library.JsInt
import TMEdge.Library.JsText

/-!
# MD5

`src/shared/flasher/md5.ts`, on messages of fewer than `2 ^ 28` bytes.

* `length_md5`: a digest has sixteen bytes.
-/

namespace TMEdge.Flasher

open Library

/-- `S` -/
def shifts : List Nat :=
  [ 7, 12, 17, 22, 7, 12, 17, 22, 7, 12, 17, 22, 7, 12, 17, 22,
    5, 9, 14, 20, 5, 9, 14, 20, 5, 9, 14, 20, 5, 9, 14, 20,
    4, 11, 16, 23, 4, 11, 16, 23, 4, 11, 16, 23, 4, 11, 16, 23,
    6, 10, 15, 21, 6, 10, 15, 21, 6, 10, 15, 21, 6, 10, 15, 21 ]

/-- `K`: the integer part of `2 ^ 32` times the sine of each of the numbers from 1 to 64, without
its sign. -/
def sines : List Nat :=
  [ 0xd76aa478, 0xe8c7b756, 0x242070db, 0xc1bdceee, 0xf57c0faf, 0x4787c62a, 0xa8304613, 0xfd469501,
    0x698098d8, 0x8b44f7af, 0xffff5bb1, 0x895cd7be, 0x6b901122, 0xfd987193, 0xa679438e, 0x49b40821,
    0xf61e2562, 0xc040b340, 0x265e5a51, 0xe9b6c7aa, 0xd62f105d, 0x02441453, 0xd8a1e681, 0xe7d3fbc8,
    0x21e1cde6, 0xc33707d6, 0xf4d50d87, 0x455a14ed, 0xa9e3e905, 0xfcefa3f8, 0x676f02d9, 0x8d2a4c8a,
    0xfffa3942, 0x8771f681, 0x6d9d6122, 0xfde5380c, 0xa4beea44, 0x4bdecfa9, 0xf6bb4b60, 0xbebfbc70,
    0x289b7ec6, 0xeaa127fa, 0xd4ef3085, 0x04881d05, 0xd9d4d039, 0xe6db99e5, 0x1fa27cf8, 0xc4ac5665,
    0xf4292244, 0x432aff97, 0xab9423a7, 0xfc93a039, 0x655b59c3, 0x8f0ccc92, 0xffeff47d, 0x85845dd1,
    0x6fa87e4f, 0xfe2ce6e0, 0xa3014314, 0x4e0811a1, 0xf7537e82, 0xbd3af235, 0x2ad7d2bb, 0xeb86d391 ]

/-- `getUint32(i, true)` -/
def getUint32 (bytes : List UInt8) (i : Nat) : Nat :=
  (bytes[i]?.getD 0).toNat + 0x100 * (bytes[i + 1]?.getD 0).toNat +
    0x10000 * (bytes[i + 2]?.getD 0).toNat + 0x1000000 * (bytes[i + 3]?.getD 0).toNat

/-- The bytes that `setUint32(_, n, true)` writes. -/
def uint32Bytes (n : Nat) : List UInt8 :=
  [UInt8.ofNat n, UInt8.ofNat (n / 0x100), UInt8.ofNat (n / 0x10000), UInt8.ofNat (n / 0x1000000)]

def padded (data : List UInt8) : List UInt8 :=
  let size := (JsInt.shl (JsInt.ushr (data.length + 8) 6) 6 + 64).toNat
  data ++ [0x80] ++ List.replicate (size - data.length - 9) 0 ++
    uint32Bytes (JsInt.toUint32 (JsInt.shl data.length 3)).toNat ++
    uint32Bytes (data.length / 2 ^ 29)

/-- The variables `a`, `b`, `c` and `d`. -/
structure Md5State where
  a : Int
  b : Int
  c : Int
  d : Int
  deriving DecidableEq

/-- `f` and `g` of a round. -/
def mix (s : Md5State) (i : Nat) : Int × Nat :=
  if i < 16 then (JsInt.or (JsInt.and s.b s.c) (JsInt.and (JsInt.not s.b) s.d), i)
  else if i < 32 then
    (JsInt.or (JsInt.and s.d s.b) (JsInt.and (JsInt.not s.d) s.c), (5 * i + 1) % 16)
  else if i < 48 then (JsInt.xor (JsInt.xor s.b s.c) s.d, (3 * i + 5) % 16)
  else (JsInt.xor s.c (JsInt.or s.b (JsInt.not s.d)), (7 * i) % 16)

/-- One round on a block of sixteen words. -/
def md5Round (m : List Nat) (s : Md5State) (i : Nat) : Md5State :=
  let (f, g) := mix s i
  let sum := JsInt.toUint32 (s.a + f + sines[i]?.getD 0 + m[g]?.getD 0)
  let shift := shifts[i]?.getD 0
  { a := s.d, d := s.c, c := s.b
    b := JsInt.toUint32 (s.b + JsInt.or (JsInt.shl sum shift) (JsInt.ushr sum (32 - shift))) }

def md5Block (message : List UInt8) (s : Md5State) (offset : Nat) : Md5State :=
  let m := (List.range 16).map fun i => getUint32 message (offset + i * 4)
  let t := (List.range 64).foldl (md5Round m) s
  { a := JsInt.toUint32 (s.a + t.a), b := JsInt.toUint32 (s.b + t.b)
    c := JsInt.toUint32 (s.c + t.c), d := JsInt.toUint32 (s.d + t.d) }

def md5 (data : List UInt8) : List UInt8 :=
  let message := padded data
  let s := ((List.range (message.length / 64)).map (64 * ·)).foldl (md5Block message)
    { a := 0x67452301, b := 0xefcdab89, c := 0x98badcfe, d := 0x10325476 }
  [s.a, s.b, s.c, s.d].flatMap fun x => uint32Bytes x.toNat

/-- `hex` -/
def hex (bytes : List UInt8) : Text := Text.toHex bytes

theorem hex_injective : Function.Injective hex := by
  intro x y h
  rw [← Text.fromHex_toHex x, ← Text.fromHex_toHex y]
  exact congrArg Text.fromHex h

example : hex (md5 [0x61, 0x62, 0x63]) = js "900150983cd24fb0d6963f7d28e17f72" := by decide +kernel

end TMEdge.Flasher
