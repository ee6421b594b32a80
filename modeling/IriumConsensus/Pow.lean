import IriumConsensus.Lib.Bytes

namespace IriumConsensus

open ByteCodec

abbrev Hash32 := ByteVec 32
abbrev Pkh := ByteVec 20

instance : LawfulBEq Hash32 := inferInstance
instance : LawfulBEq Pkh := inferInstance
abbrev PubKey33 := ByteVec 33
abbrev Sig64 := ByteVec 64

/-- The third-party primitives: hashes, ECDSA over secp256k1, the RFC 9381 VRF and scrypt.
An ECDSA signature is its parsed pair of scalars, 64 bytes. -/
structure Crypto where
  sha256 : Bytes → Hash32
  ripemd160 : Bytes → Pkh
  /-- `VerifyingKey::from_sec1_bytes` accepts the bytes. -/
  keyFromSec1 : Bytes → Bool
  /-- `Signature::from_der`. -/
  sigFromDer : Bytes → Option Sig64
  /-- `Signature::from_slice` accepts the 64 bytes. -/
  sigFromSlice : Sig64 → Bool
  /-- `signature.normalize_s().is_some()`. -/
  sigHighS : Sig64 → Bool
  verifyPrehash : Bytes → Hash32 → Sig64 → Bool
  /-- `secp256kfun::Point::from_bytes` accepts the bytes. -/
  pointFromBytes : PubKey33 → Bool
  /-- `bincode::decode_from_slice` of a VRF proof: the number of bytes used. -/
  vrfProofDecode : ByteVec 81 → Option Nat
  /-- `tai::verify` followed by `tai::output`. -/
  vrfVerify : PubKey33 → Bytes → ByteVec 81 → Option Hash32
  /-- The scrypt hash of a Litecoin header. -/
  scryptPow : Bytes → Hash32

variable (C : Crypto)

def sha256d (data : Bytes) : Hash32 := C.sha256 (C.sha256 data).bytes

def hash160 (data : Bytes) : Pkh := C.ripemd160 (C.sha256 data).bytes

structure Target where
  bits : UInt32
  deriving DecidableEq, Repr

def Target.toTarget (t : Target) : Nat :=
  let exponent := t.bits.toNat / 2 ^ 24
  let mantissa := t.bits.toNat % 2 ^ 24
  if exponent ≤ 3 then mantissa >>> (8 * (3 - exponent)) else mantissa <<< (8 * (exponent - 3))

/-- The number of bytes of `BigUint::to_bytes_be` of a positive number. -/
def byteLength (value : Nat) : Nat := Nat.log2 value / 8 + 1

def Target.fromTarget (value : Nat) : Target :=
  if value = 0 then ⟨0⟩ else
    let exponent := byteLength value
    let mantissa :=
      (if exponent ≤ 3 then value <<< (8 * (3 - exponent)) else value >>> (8 * (exponent - 3))) % 2 ^ 24
    if 2 ^ 23 ≤ mantissa then ⟨UInt32.ofNat ((exponent + 1) * 2 ^ 24 + mantissa / 256)⟩
    else ⟨UInt32.ofNat (exponent * 2 ^ 24 + mantissa)⟩

def minDifficultyTarget (powLimit : Target) (minDifficulty : Nat) : Target :=
  if minDifficulty ≤ 1 then powLimit else
    Target.fromTarget (max (powLimit.toTarget / minDifficulty) 1)

def meetsTarget (hash : Hash32) (target : Target) : Bool :=
  decide (beNat hash.bytes ≤ target.toTarget)

/-- Bitcoin's convention reads the hash as a little-endian number. -/
def meetsTargetBtc (hash : Hash32) (target : Target) : Bool :=
  decide (leNat hash.bytes ≤ target.toTarget)

example : [0x1d00ffff, 0x1f00ffff, 0x207fffff, 0x1b0404cb].all
    (fun bits => Target.fromTarget (Target.toTarget ⟨bits⟩) = ⟨bits⟩) := by decide +kernel

end IriumConsensus
