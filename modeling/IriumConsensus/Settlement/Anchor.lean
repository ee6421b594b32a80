import IriumConsensus.Lib.Text
import IriumConsensus.Transaction

namespace IriumConsensus

open ByteCodec

inductive AgreementAnchorRole where
  | funding
  | release
  | refund
  | milestoneRelease
  | depositLock
  | collateralLock
  | otcSettlement
  | merchantSettlement
  | disputeRaise
  | disputeEvidence
  | disputeResolve
  | resolverRegister
  deriving DecidableEq, Repr

def AgreementAnchorRole.shortCode : AgreementAnchorRole → Char
  | funding => 'f'
  | release => 'l'
  | refund => 'r'
  | milestoneRelease => 'm'
  | depositLock => 'd'
  | collateralLock => 'c'
  | otcSettlement => 'o'
  | merchantSettlement => 't'
  | disputeRaise => 'e'
  | disputeEvidence => 'v'
  | disputeResolve => 'x'
  | resolverRegister => 'y'

def AgreementAnchorRole.fromShortCode : List Char → Option AgreementAnchorRole
  | ['f'] => some funding
  | ['l'] => some release
  | ['r'] => some refund
  | ['m'] => some milestoneRelease
  | ['d'] => some depositLock
  | ['c'] => some collateralLock
  | ['o'] => some otcSettlement
  | ['t'] => some merchantSettlement
  | ['e'] => some disputeRaise
  | ['v'] => some disputeEvidence
  | ['x'] => some disputeResolve
  | ['y'] => some resolverRegister
  | _ => none

structure AgreementAnchor where
  agreementHash : String
  role : AgreementAnchorRole
  milestoneId : Option String := none
  deriving DecidableEq, Repr

def anchorOfParts : List (List Char) → Option AgreementAnchor
  | [hash, code] => (AgreementAnchorRole.fromShortCode code).map fun role => ⟨String.ofList hash, role, none⟩
  | [hash, code, milestone] =>
    (AgreementAnchorRole.fromShortCode code).map fun role => ⟨String.ofList hash, role, some (String.ofList milestone)⟩
  | _ => none

def parseAgreementAnchor : Bytes → Option AgreementAnchor
  | 0x6a :: len :: payload =>
    if payload.length = len.toNat then
      match fromUtf8 payload with
      | some ('a' :: 'g' :: 'r' :: '1' :: ':' :: rest) => anchorOfParts (rest.splitOn ':')
      | _ => none
    else none
  | _ => none

def anchorScript (anchor : AgreementAnchor) : Bytes :=
  let payload := utf8 ("agr1:" ++ anchor.agreementHash ++ ":" ++ String.singleton anchor.role.shortCode ++
    match anchor.milestoneId with
    | some m => ":" ++ m
    | none => "")
  0x6a :: UInt8.ofNat payload.length :: payload

def buildAgreementAnchorPayload (anchor : AgreementAnchor) : Except String Bytes :=
  if (utf8 anchor.agreementHash).length ≠ 64 ∨ decodeHex anchor.agreementHash = none then
    .error "agreement hash must be 32-byte hex"
  else
    let payload := utf8 ("agr1:" ++ anchor.agreementHash ++ ":" ++ String.singleton anchor.role.shortCode ++
      match anchor.milestoneId with
      | some m => ":" ++ m
      | none => "")
    if 75 < payload.length then .error "agreement anchor payload too large" else .ok payload

def buildAgreementAnchorOutput (anchor : AgreementAnchor) : Except String TxOutput :=
  (buildAgreementAnchorPayload anchor).map fun payload => ⟨0, 0x6a :: UInt8.ofNat payload.length :: payload⟩

end IriumConsensus
