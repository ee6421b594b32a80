import IriumConsensus.ChainParams

namespace IriumConsensus

open ByteCodec

variable (E : NodeEnv)

/-- The shape of the `resolved_*_activation_height` functions: the height is built in on mainnet
and comes from the environment elsewhere. -/
def resolvedActivationHeight (mainnet : Option Nat) (v : ActivationVar) : Option Nat :=
  match networkKind E with
  | .mainnet => mainnet
  | .testnet | .devnet => E.activationHeight v

def mainnetBtcAnchor : Anchor where
  hash := leVec 32 0x000000000000000000010b17283c3c400507969a9c2afd1dcf2082ec5cca2880
  height := 880000
  bits := 0x17028c61
  time := 1737337343

def mainnetLtcAnchor : Anchor where
  hash := leVec 32 0x8a89d2e52329aabe63fabeb9d4cf734d8a44de158598afb6560f20f8c947be64
  height := 3106656
  bits := 0x1929b619
  time := 1778676649

/-- `envAnchor` is the anchor the environment names, if it names one in full. -/
def resolveSpvParams (mainnetAnchor : Anchor) (envAnchor : Option Anchor) (retarget : RetargetParams)
    (activation : Option Nat) : Option SpvParams := do
  let activationHeight ← activation
  match networkKind E with
  | .mainnet => if mainnetAnchor = Anchor.zero then none else some ⟨activationHeight, mainnetAnchor, retarget⟩
  | .testnet | .devnet => do
    let anchor ← envAnchor
    return ⟨activationHeight, anchor, retarget⟩

def resolveBtcSpvParams (envAnchor : Option Anchor) : Option SpvParams :=
  resolveSpvParams E mainnetBtcAnchor envAnchor btcRetarget (resolvedActivationHeight E (some 23850) .btcSpvRelay)

def resolveLtcSpvParams (envAnchor : Option Anchor) : Option SpvParams :=
  resolveSpvParams E mainnetLtcAnchor envAnchor litecoinRetarget
    (resolvedActivationHeight E (some 24800) .ltcSpvRelay)

def nodePowLimit : Target :=
  match networkKind E with
  | .devnet => ⟨0x207fffff⟩
  | .mainnet | .testnet => ⟨0x1d00ffff⟩

/-- The parameters `iriumd` starts with. -/
def nodeParams (btcAnchor ltcAnchor : Option Anchor) (genesisBlock : Block) : ChainParams where
  genesisBlock
  powLimit := nodePowLimit E
  htlcv1ActivationHeight := resolvedActivationHeight E (some 18677) .htlcv1
  mpsov1ActivationHeight := resolvedActivationHeight E (some 20000) .mpsov1
  lwma := LwmaParams.new (resolvedActivationHeight E (some 16462) .lwma) (nodePowLimit E)
  lwmaV2 := (resolvedActivationHeight E (some 19740) .lwmaV2).map fun h =>
    LwmaParams.newV2 (some h) (nodePowLimit E)
  auxpowActivationHeight := resolvedActivationHeight E (some 24800) .auxpow
  btcSpv := resolveBtcSpvParams E btcAnchor
  ltcSpv := resolveLtcSpvParams E ltcAnchor
  htlcBtcSwapV1ActivationHeight := resolvedActivationHeight E (some 23850) .htlcBtcSwapV1
  btcSwapBech32PaymentActivationHeight := resolvedActivationHeight E none .btcSwapBech32Payment
  htlcLtcSwapV1ActivationHeight := resolvedActivationHeight E (some 24800) .htlcLtcSwapV1
  swapOrderV1ActivationHeight := resolvedActivationHeight E (some 23850) .swapOrderV1
  ltcSwapOrderV1ActivationHeight := resolvedActivationHeight E (some 24800) .ltcSwapOrderV1
  coinbaseHeaderBatchActivationHeight := resolvedActivationHeight E (some 24800) .coinbaseHeaderBatch

def lockedGenesis : Block where
  header :=
    { version := 1
      prevHash := ByteVec.zero 32
      merkleRoot := beVec 32 0xcd78279c389b6f2f0a4edc567f3ba67b27daed60ab014342bb4a5b56c2ebb4db
      time := 1767583930
      bits := 0x1d00ffff
      nonce := 1842179559 }
  transactions :=
    [{ version := 1
       inputs := [⟨ByteVec.zero 32, 0xffffffff, asciiBytes "Irium Genesis Block - SHA256d PoW", 0xffffffff⟩]
       outputs := [⟨350000000000000, [0x03, 0xf0, 0x67, 0x02, 0xb1, 0x75, 0x76, 0xa9, 0x14] ++
         (beVec 20 0x0ae5debfc6279fdb002c0da105be6d0645aac398).bytes ++ [0x88, 0xac]⟩]
       locktime := 0 }]
  auxpow := none
  poawxReceipts := none

end IriumConsensus
