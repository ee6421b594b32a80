import IriumConsensus.Lib.Sha256
import IriumConsensus.Pow

namespace IriumConsensus

open ByteCodec

/-- SHA-256 as it is; no key, signature or VRF proof is accepted. -/
def shaCrypto : Crypto where
  sha256 := Sha2.sha256
  ripemd160 _ := ByteVec.zero 20
  keyFromSec1 _ := false
  sigFromDer _ := none
  sigFromSlice _ := false
  sigHighS _ := false
  verifyPrehash _ _ _ := false
  pointFromBytes _ := false
  vrfProofDecode _ := none
  vrfVerify _ _ _ := none
  scryptPow _ := ByteVec.zero 32

def keyOne : PubKey33 := beVec 33 0x0279be667ef9dcbbac55a06295ce870b07029bfcdb2dce28d959f2815b16f81798

def keyOnePkh : Pkh := beVec 20 0x751e76e8199196d454941c45d1b3a323f1433bd6

/-- SHA-256 as it is, and what is known of `keyOne`. -/
def keyCrypto : Crypto :=
  { shaCrypto with
    ripemd160 := fun bs => if bs = (Sha2.sha256 keyOne.bytes).bytes then keyOnePkh else ByteVec.zero 20
    keyFromSec1 := fun bs => bs = keyOne.bytes
    pointFromBytes := fun key => key = keyOne }

/-- A signature of `keyOne`, with its DER form. -/
structure SignedDigest where
  digest : Hash32
  signature : Sig64
  der : Bytes := []

/-- The signature is one that `keyOne` has made. -/
def signedCrypto (d : SignedDigest) : Crypto :=
  { keyCrypto with
    sigFromDer := fun bs => if bs = d.der then some d.signature else none
    sigFromSlice := fun signature => signature = d.signature
    verifyPrehash := fun pubkey digest signature =>
      pubkey = keyOne.bytes ∧ digest = d.digest ∧ signature = d.signature }

/-- The signatures are those that `keyOne` has made. -/
def signaturesCrypto (ds : List SignedDigest) : Crypto :=
  { keyCrypto with
    sigFromDer := fun bs => (ds.find? fun d => bs = d.der).map SignedDigest.signature
    sigFromSlice := fun signature => ds.any fun d => signature = d.signature
    verifyPrehash := fun pubkey digest signature =>
      pubkey = keyOne.bytes ∧ ds.any fun d => digest = d.digest ∧ signature = d.signature }

end IriumConsensus
