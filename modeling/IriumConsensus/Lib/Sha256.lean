import IriumConsensus.Lib.Bytes

namespace Sha2

open ByteCodec

/-- Continue with `x` after it has been evaluated: the case split makes the kernel
compute the number before the continuation copies it. -/
def strict {α : Type} (x : Nat) (k : Nat → α) : α :=
  match x with
  | 0 => k 0
  | n + 1 => k (n + 1)

def roundConstants : List Nat := [
  0x428a2f98, 0x71374491, 0xb5c0fbcf, 0xe9b5dba5, 0x3956c25b, 0x59f111f1, 0x923f82a4, 0xab1c5ed5,
  0xd807aa98, 0x12835b01, 0x243185be, 0x550c7dc3, 0x72be5d74, 0x80deb1fe, 0x9bdc06a7, 0xc19bf174,
  0xe49b69c1, 0xefbe4786, 0x0fc19dc6, 0x240ca1cc, 0x2de92c6f, 0x4a7484aa, 0x5cb0a9dc, 0x76f988da,
  0x983e5152, 0xa831c66d, 0xb00327c8, 0xbf597fc7, 0xc6e00bf3, 0xd5a79147, 0x06ca6351, 0x14292967,
  0x27b70a85, 0x2e1b2138, 0x4d2c6dfc, 0x53380d13, 0x650a7354, 0x766a0abb, 0x81c2c92e, 0x92722c85,
  0xa2bfe8a1, 0xa81a664b, 0xc24b8b70, 0xc76c51a3, 0xd192e819, 0xd6990624, 0xf40e3585, 0x106aa070,
  0x19a4c116, 0x1e376c08, 0x2748774c, 0x34b0bcb5, 0x391c0cb3, 0x4ed8aa4a, 0x5b9cca4f, 0x682e6ff3,
  0x748f82ee, 0x78a5636f, 0x84c87814, 0x8cc70208, 0x90befffa, 0xa4506ceb, 0xbef9a3f7, 0xc67178f2]

structure Working where
  a : Nat
  b : Nat
  c : Nat
  d : Nat
  e : Nat
  f : Nat
  g : Nat
  h : Nat

def Working.initial : Working :=
  ⟨0x6a09e667, 0xbb67ae85, 0x3c6ef372, 0xa54ff53a, 0x510e527f, 0x9b05688c, 0x1f83d9ab, 0x5be0cd19⟩

/-- A 32-bit word written twice: shifting it right rotates its lower half. -/
def twice (x : Nat) : Nat := x * 0x100000001

def bigSigma0 (x : Nat) : Nat := (twice x >>> 2 ^^^ twice x >>> 13 ^^^ twice x >>> 22) % 0x100000000
def bigSigma1 (x : Nat) : Nat := (twice x >>> 6 ^^^ twice x >>> 11 ^^^ twice x >>> 25) % 0x100000000
def smallSigma0 (x : Nat) : Nat := (twice x >>> 7 ^^^ twice x >>> 18) % 0x100000000 ^^^ x >>> 3
def smallSigma1 (x : Nat) : Nat := (twice x >>> 17 ^^^ twice x >>> 19) % 0x100000000 ^^^ x >>> 10
def choose (e f g : Nat) : Nat := (e &&& f) ^^^ ((e ^^^ 0xffffffff) &&& g)
def majority (a b c : Nat) : Nat := (a &&& b) ^^^ (a &&& c) ^^^ (b &&& c)

/-- The words of a schedule are the digits of one number, the newest word lowest. -/
def word (ws i : Nat) : Nat := ws >>> (32 * i) % 0x100000000

def schedule : Nat → Nat → Nat
  | 0, ws => ws
  | n + 1, ws =>
    strict (0x100000000 * ws + (smallSigma1 (word ws 1) + word ws 6 + smallSigma0 (word ws 14) + word ws 15)
      % 0x100000000) (schedule n)

def rounds (ws : Nat) : Nat → List Nat → Working → Working
  | n + 1, k :: ks, s =>
    strict (s.h + bigSigma1 s.e + choose s.e s.f s.g + k + word ws n) fun t =>
    strict ((t + bigSigma0 s.a + majority s.a s.b s.c) % 0x100000000) fun a =>
    strict ((s.d + t) % 0x100000000) fun e =>
      rounds ws n ks ⟨a, s.a, s.b, s.c, e, s.e, s.f, s.g⟩
  | _, _, s => s

def Working.add {α : Type} (s t : Working) (k : Working → α) : α :=
  strict ((s.a + t.a) % 2 ^ 32) fun a => strict ((s.b + t.b) % 2 ^ 32) fun b =>
  strict ((s.c + t.c) % 2 ^ 32) fun c => strict ((s.d + t.d) % 2 ^ 32) fun d =>
  strict ((s.e + t.e) % 2 ^ 32) fun e => strict ((s.f + t.f) % 2 ^ 32) fun f =>
  strict ((s.g + t.g) % 2 ^ 32) fun g => strict ((s.h + t.h) % 2 ^ 32) fun h =>
    k ⟨a, b, c, d, e, f, g, h⟩

def beList (w x : Nat) : Bytes := (leList w x).reverse

def padding (len : Nat) : Bytes :=
  0x80 :: (List.replicate ((119 - len % 64) % 64) 0 ++ beList 8 (8 * len))

def blocks : Nat → Bytes → Working → Working
  | 0, _, s => s
  | n + 1, bs, s =>
    strict (schedule 48 (beNat (bs.take 64))) fun ws =>
      s.add (rounds ws 64 roundConstants s) fun t => blocks n (bs.drop 64) t

def Working.digest (s : Working) : ByteVec 32 where
  bytes := beList 4 s.a ++ beList 4 s.b ++ beList 4 s.c ++ beList 4 s.d ++
    beList 4 s.e ++ beList 4 s.f ++ beList 4 s.g ++ beList 4 s.h
  length_eq := by simp [beList]

/-- SHA-256, by structural recursion so that the kernel can run it. -/
def sha256 (bs : Bytes) : ByteVec 32 :=
  (blocks ((bs.length + 72) / 64) (bs ++ padding bs.length) Working.initial).digest

example : beNat (sha256 [0x61, 0x62, 0x63]).bytes =
    0xba7816bf8f01cfea414140de5dae2223b00361a396177a9cb410ff61f20015ad := by decide +kernel

end Sha2
