import IriumConsensus.RealHash
import IriumConsensus.SpendAuth

namespace IriumConsensus

open ByteCodec

variable {C : Crypto} {tx : Transaction} {inputIndex height : Nat} {mpso : MpsoV1Output} {txin : TxInput}
  {utxo : TxOutput} {flags : SpendFlags} {view : ConsensusView} {consumed : Consumed}

/-- An output of this kind is spent by its claim keys before the timeout and by its refund keys from then on. -/
theorem mpso_spend_iff (hparse : parseOutputEncumbrance utxo.scriptPubkey = .mpsoV1 mpso) (hact : flags.mpsov1)
    (hlen : txin.scriptSig.length ≤ mpsoV1MaxWitnessSize) :
    ((verifyTransactionSignature C tx inputIndex txin utxo height flags view consumed).isSome ↔
      MpsoClaims C tx inputIndex utxo.scriptPubkey txin.scriptSig height mpso ∨
        MpsoRefunds C tx inputIndex utxo.scriptPubkey txin.scriptSig height mpso) ∧
    ¬ ((∃ scriptSig, MpsoClaims C tx inputIndex utxo.scriptPubkey scriptSig height mpso) ∧
      ∃ scriptSig, MpsoRefunds C tx inputIndex utxo.scriptPubkey scriptSig height mpso) ∧
    ((verifyTransactionSignature C tx inputIndex txin utxo height flags view consumed).isSome →
      ∃ sigs, SignedByMofN C tx inputIndex utxo.scriptPubkey mpso.claimM.toNat mpso.claimPubkeys sigs ∨
        SignedByMofN C tx inputIndex utxo.scriptPubkey mpso.refundM.toNat mpso.refundPubkeys sigs) := by
  obtain ⟨hw, henc⟩ := parseMpsoScript_spec (hparse ▸ parseOutputEncumbrance_parsedAs utxo.scriptPubkey)
  refine ⟨?_, ?_, fun h => ?_⟩
  · have hiff := @verifyMpsoSpend_iff C tx inputIndex height mpso hw txin.scriptSig
    rw [and_iff_right hlen, henc] at hiff
    rw [← hiff]
    simp [verifyTransactionSignature, hparse, hact]
  · rintro ⟨⟨_, hbefore, -⟩, _, hafter, -⟩
    omega
  · obtain ⟨_, hc⟩ := Option.isSome_iff_exists.mp h
    have hbranch := verifyTransactionSignature_branch hc
    rw [hparse] at hbranch
    cases hbranch with
    | mpsoClaim _ sigs _ _ _ _ hsig _ => exact ⟨sigs, .inl hsig⟩
    | mpsoRefund _ sigs _ _ _ hsig => exact ⟨sigs, .inr hsig⟩

def soloMpso : MpsoV1Output where
  flags := 0
  claimN := 1
  claimM := 1
  refundN := 1
  refundM := 1
  agreementHash := ByteVec.zero 32
  claimPubkeys := [keyOne]
  refundPubkeys := [keyOne]
  timeoutHeight := 100
  optionalHash := none

def soloSignature : SignedDigest where
  digest := beVec 32 0xcfe1e1c5463f620ec3a1fd1f7e300d90cf8a9b85648bc58d8c0a22e5db8b66f0
  signature := beVec 64 0x01d4c50fac6dff2f431df6f314cdf38ae6259c7448582b073aa2f0a11c936559603217f563c395607363a2dee349983e71ae5c46fda5771e6b5022da05e082ae
  der := (beVec 70 0x3044022001d4c50fac6dff2f431df6f314cdf38ae6259c7448582b073aa2f0a11c9365590220603217f563c395607363a2dee349983e71ae5c46fda5771e6b5022da05e082ae).bytes

def soloInput : TxInput := ⟨ByteVec.zero 32, 0, (encodeMpsoClaimWitness 1 [soloSignature.der ++ [1]] none).getD [], 0⟩

def soloTx : Transaction := ⟨1, [soloInput], [⟨1000, p2pkhScript keyOnePkh⟩], 0⟩

theorem mpso_spend_iff_solo :
    MpsoClaims (signedCrypto soloSignature) soloTx 0 (encodeMpsoScript soloMpso) soloInput.scriptSig 99 soloMpso ∨
      MpsoRefunds (signedCrypto soloSignature) soloTx 0 (encodeMpsoScript soloMpso) soloInput.scriptSig 99 soloMpso :=
  (@mpso_spend_iff (signedCrypto soloSignature) soloTx 0 99 soloMpso soloInput ⟨1000, encodeMpsoScript soloMpso⟩
    ⟨true, true, true, true, true, true, true⟩ ⟨⟨Relay.empty, ∅⟩, ⟨Relay.empty, ∅⟩⟩ ⟨[], []⟩ (by decide +kernel) rfl (by decide +kernel)).1.mp
    (by decide +kernel)

end IriumConsensus
