import IriumConsensus.Ledger

namespace IriumConsensus

open Checks FinMaps Stateful

/-- The relay updates that the header batches of a block have made so far. -/
structure RelayUpdates where
  btc : Option RelayUpdate
  ltc : Option RelayUpdate
  deriving DecidableEq, Repr

def RelayUpdates.get (u : RelayUpdates) : ForeignChain → Option RelayUpdate
  | .btc => u.btc
  | .ltc => u.ltc

def RelayUpdates.set (u : RelayUpdates) (chain : ForeignChain) (r : RelayUpdate) : RelayUpdates :=
  match chain with
  | .btc => { u with btc := some r }
  | .ltc => { u with ltc := some r }

def TxOutput.batchChain (out : TxOutput) : Option ForeignChain :=
  if out.tag = some btcHeaderBatchTag then some .btc
  else if out.tag = some ltcHeaderBatchTag then some .ltc
  else none

/-- The errors of a header batch that a coinbase may carry without harm. -/
def softApplyError : RelayError → Bool
  | .firstDoesNotConnect | .alreadyKnown _ => true
  | _ => false

def dogeCarrierTag : UInt8 := 0xc9
def dogeCarrierLegacyCutoff : Nat := 27880

/-- The coinbase outputs that are neither checked nor counted. -/
def isLegacyCarrier (height : Nat) (out : TxOutput) : Bool :=
  out.tag = some dogeCarrierTag ∧ height < dogeCarrierLegacyCutoff

variable (C : Crypto) (E : NodeEnv) (P : ChainParams) (height : Nat) (blockTime : UInt32)

/-- A second batch of one chain is refused; the first has left its update. -/
def applyBatchOutput (chain : ForeignChain) (out : TxOutput) (updates : RelayUpdates) :
    Run Ledger String RelayUpdates := do
  let name := chain.label ++ "HeaderBatch"
  lift (failIf (P.spvRelayActiveAt chain height = false) (name ++ " output before SPV relay activation"))
  lift (failIf ((updates.get chain).isSome) ("block contains more than one " ++ name ++ " output"))
  let headers ← lift ((chain.parseBatch out.scriptPubkey).mapError ((name ++ " apply parse failed: ") ++ ·))
  let L ← read
  let applied ← lift ((P.applyHeaderBatch C chain headers blockTime (L.relay chain)).mapError chain.relayError)
  update (Ledger.setRelay chain applied.2)
  return updates.set chain applied.1

def applyBatchOutputs : List TxOutput → RelayUpdates → Run Ledger String RelayUpdates
  | [], updates => pure updates
  | out :: rest, updates =>
    match out.batchChain with
    | some chain => do
      let updates ← applyBatchOutput C P height blockTime chain out updates
      applyBatchOutputs rest updates
    | none => applyBatchOutputs rest updates

/-- The loop over the transactions after the coinbase: each is checked against the ledger that
the header batches before it have left. -/
def applyRegularTransactions : List Transaction → TxAcc → RelayUpdates →
    Run Ledger String (TxAcc × RelayUpdates)
  | [], acc, updates => pure (acc, updates)
  | tx :: rest, acc, updates => do
    let L ← read
    let acc ← lift (validateTransactionInternal C E P L tx height acc)
    let updates ← applyBatchOutputs C P height blockTime tx.outputs updates
    applyRegularTransactions rest acc updates

def applyCoinbaseBatch (chain : ForeignChain) (out : TxOutput) (seen : List ForeignChain)
    (updates : RelayUpdates) : Run Ledger String RelayUpdates := do
  let name := chain.label ++ "HeaderBatch"
  lift (failIf (P.coinbaseHeaderBatchActiveAt height = false) (name ++ " output not allowed in coinbase"))
  lift (failIf (P.spvRelayActiveAt chain height = false) ("coinbase " ++ name ++ " before SPV relay activation"))
  lift (failIf (out.value ≠ 0) ("coinbase " ++ name ++ " output must have value=0"))
  lift (failIf (chain ∈ seen) ("coinbase contains more than one " ++ name ++ " output"))
  lift (failIf ((updates.get chain).isSome) ("block contains both coinbase and regular-tx " ++ name))
  let headers ← lift ((chain.parseBatch out.scriptPubkey).mapError
    (("coinbase " ++ name ++ " parse failed: ") ++ ·))
  let L ← read
  match P.applyHeaderBatch C chain headers blockTime (L.relay chain) with
  | .ok applied => do
    update (Ledger.setRelay chain applied.2)
    return updates.set chain applied.1
  | .error e => if softApplyError e then return updates else fail (chain.relayError e)

/-- The loop over the coinbase outputs; it sums the values of those that are checked. -/
def applyCoinbaseOutputs : List TxOutput → List ForeignChain → RelayUpdates → Nat →
    Run Ledger String (RelayUpdates × Nat)
  | [], _, updates, total => pure (updates, total)
  | out :: rest, seen, updates, total =>
    match out.batchChain with
    | some chain => do
      let updates ← applyCoinbaseBatch C P height blockTime chain out seen updates
      applyCoinbaseOutputs rest (chain :: seen) updates total
    | none =>
      if isLegacyCarrier height out then applyCoinbaseOutputs rest seen updates total
      else do
        lift (validateOutput C P out height)
        lift (failIf (maxMoney < total + out.value.toNat) "Coinbase outputs overflow")
        applyCoinbaseOutputs rest seen updates (total + out.value.toNat)

def Transaction.entries (tx : Transaction) (coinbase : Bool) : List (OutPoint × UtxoEntry) :=
  tx.outputs.mapIdx fun i out => (⟨tx.txid C, UInt32.ofNat i⟩, ⟨out, height, coinbase⟩)

/-- What a block adds to the UTXO set: header batches are left out of the regular transactions,
but not of the coinbase. -/
def Block.created (b : Block) : List (OutPoint × UtxoEntry) :=
  (b.transactions.tail.flatMap fun tx =>
    (tx.entries C height false).filter fun e => e.2.output.batchChain.isNone) ++
  b.transactions.head?.toList.flatMap fun coinbase => coinbase.entries C height true

def subsidyOf (enforceReward : Bool) (blockRewardValue fees coinbaseTotal : Nat) : Nat :=
  let subsidy := coinbaseTotal - min fees coinbaseTotal
  if enforceReward then min blockRewardValue subsidy else subsidy

def Ledger.spentBy (L : Ledger) (seen : List OutPoint) : List (OutPoint × UtxoEntry) := entriesAt L.utxos seen

/-- The last writes of a block: spent outputs go, created ones come, claims are recorded. -/
def Ledger.commit (L : Ledger) (acc : TxAcc) (created : List (OutPoint × UtxoEntry)) : Ledger where
  utxos := insertAll (eraseAll L.utxos acc.seen) created
  btc := { L.btc with claimed := L.btc.claimed ∪ acc.consumed.btc.toFinset }
  ltc := { L.ltc with claimed := L.ltc.claimed ∪ acc.consumed.ltc.toFinset }

def validateAndApplyTransactions (b : Block) (blockRewardValue : Nat) (enforceReward : Bool)
    (maxSubsidy : Option Nat) : Run Ledger String BlockUndo := do
  let coinbase ← lift (orFail b.transactions.head? "Block must include transactions")
  lift (failIf (isCoinbase coinbase = false) "First transaction must be coinbase")
  lift (failIf (coinbase.outputs = []) "Coinbase transaction must create outputs")
  let regular ← applyRegularTransactions C E P height b.header.time b.transactions.tail ⟨[], 0, ⟨[], []⟩⟩
    ⟨none, none⟩
  let acc := regular.1
  let paid ← applyCoinbaseOutputs C P height b.header.time coinbase.outputs [] regular.2 0
  lift (failIf (enforceReward ∧ blockRewardValue + acc.fees.toNat < paid.2)
    "Coinbase transaction exceeds allowed reward")
  let subsidyCreated := subsidyOf enforceReward blockRewardValue acc.fees.toNat paid.2
  lift (failIf (maxSubsidy.any (· < subsidyCreated)) "Coinbase subsidy would exceed permitted supply")
  let L ← read
  update fun L => L.commit acc (b.created C height)
  return {
    spent := L.spentBy acc.seen
    created := (b.created C height).map Prod.fst
    subsidyCreated
    btcRelayUpdate := paid.1.btc
    ltcRelayUpdate := paid.1.ltc
    claimedAdded := acc.consumed }

end IriumConsensus
