import IriumConsensus.Connect
import IriumConsensus.Nodes

namespace IriumConsensus

open Checks

variable {C : Crypto} {E : NodeEnv} {A : Ambient} {height : Nat} {prevHash : Hash32}

theorem TicketProof.validate_mainnet (t : TicketProof) (height : Nat) (prevHash : Hash32) (roleId : UInt8)
    (solver : Pkh) (bits : Nat) (penalty : Bool) :
    t.validate C E 0 height prevHash roleId solver bits penalty = .error "ticket proof: mainnet hard-off" := rfl

theorem checkTicketProofs_mainnet {i : Nat} {r : PoawxBlockReceipt} :
    checkTicketProofs C E height prevHash 0 i r ≠ .ok () := by
  intro h
  simp only [checkTicketProofs, bind_eq_ok] at h
  obtain ⟨ext, -, proofs, -, h⟩ := h
  have hall := checkAll_eq_ok.mp h
  have hc := hall (roleComputeContributor, ext.roleReward.compute, proofs.compute)
    (by simp [PerRole.zip, PerRole.toList, roleIds])
  rw [mapError_eq_ok, TicketProof.validate_mainnet] at hc
  cases hc

theorem validatePhase20TicketProofs_mainnet {receipts : List PoawxBlockReceipt} (hr : receipts ≠ []) :
    validatePhase20TicketProofs C E receipts height prevHash 0 ≠ .ok () := by
  intro h
  obtain ⟨r, rest, rfl⟩ := List.exists_cons_of_ne_nil hr
  exact checkTicketProofs_mainnet (checkEach_ok h (i := 0) (x := r) rfl)

section

variable (hm : networkKind E = .mainnet) {height : Nat} (hh : 50000 ≤ height) {b : Block}

include hm hh

theorem phase20ProductionActive_mainnet : phase20ProductionActive E height := by
  simp [phase20ProductionActive, multiRoleRewardActive, fairnessMatrixActive, poawxGate_mainnet hm _ hh]

theorem ticketsEnforced_mainnet : ticketsEnforced E height := poawxEnforced_mainnet hm _ _ hh

theorem validatePhase20ProductionBlock_mainnet {receipts : List PoawxBlockReceipt} {prevHash : Hash32}
    (hr : receipts ≠ []) :
    validatePhase20ProductionBlock C E b receipts height prevHash ≠ .ok () := by
  intro h
  have h0 := (networkIdByte_eq_zero_iff E).mpr hm
  simp only [validatePhase20ProductionBlock, bind_eq_ok, exists_unit, checkWhen_eq_ok, h0] at h
  obtain ⟨coinbase, -, -, -, ht⟩ := h
  exact validatePhase20TicketProofs_mainnet hr (ht (ticketsEnforced_mainnet hm hh))

theorem validatePoawxBlockReceipts_mainnet {previous : Option Block} :
    validatePoawxBlockReceipts C E b height previous ≠ .ok () := by
  intro h
  simp only [validatePoawxBlockReceipts, checkActiveReceipts, bind_eq_ok, exists_unit, failIf_eq_ok,
    checkWhen_eq_ok, phase20ProductionActive_mainnet hm hh, ↓reduceIte] at h
  obtain ⟨hr, -, -, parent, -, -, h⟩ := h.2 (poawxConsensusActive_mainnet hm hh)
  exact validatePhase20ProductionBlock_mainnet hm hh hr h

end

theorem ChainState.validateBlock_mainnet (hm : networkKind E = .mainnet) {s : ChainState}
    (hh : 50000 ≤ s.height) (b : Block) : validateBlock C E A s b ≠ .ok () := by
  intro h
  simp only [validateBlock, validatePoawxBlock, bind_eq_ok, exists_unit] at h
  exact validatePoawxBlockReceipts_mainnet hm hh h.2.2.1

/-- From height 50000 on, no state of a mainnet node accepts any block, so the chain cannot grow. -/
theorem mainnet_accepts_no_block (hm : networkKind E = .mainnet) {h : Nat} (hh : 50000 ≤ h) :
    ¬∃ (s s' : ChainState) (b : Block), s.height = h ∧ ChainState.connectBlock C E A b s = (.ok (), s') := by
  rintro ⟨s, s', b, rfl, hok⟩
  exact ChainState.validateBlock_mainnet hm hh b (ChainState.connectBlock_eq_ok.mp hok).1

theorem mainnet_accepts_no_block_at_60000 :
    ¬∃ (s s' : ChainState) (b : Block),
      s.height = 60000 ∧ ChainState.connectBlock shaCrypto mainnetNode quietAmbient b s = (.ok (), s') :=
  mainnet_accepts_no_block rfl (by decide)

theorem mainnet_stops_at_activation :
    ¬∃ (C : Crypto) (A : Ambient) (s s' : ChainState) (b : Block),
      s.height = 50000 ∧ ChainState.connectBlock C mainnetNode A b s = (.ok (), s') := by
  rintro ⟨C, A, s, s', b, hs, hok⟩
  exact ChainState.validateBlock_mainnet rfl (by omega) b (ChainState.connectBlock_eq_ok.mp hok).1

end IriumConsensus
