import IriumConsensus.MpsoRule

namespace IriumConsensus

open ByteCodec Checks

variable {consumed : List ForeignOutpoint} {scriptSig : Bytes}

section

variable (C : Crypto) (tx : Transaction) (inputIndex : Nat) (script : Bytes)

/-- `sig` is a signature of the input, with its hash type behind it. -/
def SignsInput (sig pubkey : Bytes) : Prop :=
  ∃ signature, C.sigFromDer sig.dropLast = some signature ∧ C.keyFromSec1 pubkey ∧
    C.sigHighS signature = false ∧ C.verifyPrehash pubkey (signatureDigest C tx inputIndex script) signature

def SignedByPkh (pkh : Pkh) (sig pubkey : Bytes) : Prop :=
  hash160 C pubkey = pkh ∧ SignsInput C tx inputIndex script sig pubkey

def SignedByMofN (m : Nat) (pubkeys : List PubKey33) (sigs : List Bytes) : Prop :=
  ∃ signers : List PubKey33, signers.Nodup ∧ signers ⊆ pubkeys ∧ signers.length = m ∧
    List.Forall₂ (fun sig pk => SignsInput C tx inputIndex script sig pk.bytes) sigs signers

def RevealsPreimage (expected : Hash32) (preimage : Bytes) : Prop :=
  1 ≤ preimage.length ∧ preimage.length ≤ 64 ∧ C.sha256 preimage = expected

/-- A payment on the foreign chain: the transaction is below a known header with enough headers on
top, pays the agreed recipient, binds the swap exactly once and was not used before. -/
def SpvPayment (R : SwapRules) (swap : HtlcSwapOutput) (view : ForeignView) (consumed : List ForeignOutpoint)
    (blockHash : Hash32) (branch : List Hash32) (index : UInt32) (txRaw : Bytes) : Prop :=
  ∃ (txid : Hash32) (height : Nat) (entry : HeaderEntry) (outs : List ForeignOutput) (payment binding : ForeignOutput),
    view.relay.heights.lookup blockHash = some height ∧
    view.relay.headers.lookup blockHash = some entry ∧
    swap.confirmationsRequired.toNat ≤ view.relay.tipHeight + 1 - height ∧
    btcTxid C txRaw = some txid ∧
    computeMerkleRoot C txid branch index = entry.header.merkleRoot ∧
    parseBtcTxOutputs txRaw = some outs ∧
    payment ∈ outs ∧ paysSwap R swap payment ∧
    outs.filter (bindsSwap R swap) = [binding] ∧
    (txid, binding.vout) ∉ view.claimed ∧ (txid, binding.vout) ∉ consumed

/-- The output that a spend of an order has to create, and who has to sign for it. -/
inductive OrderBranch (R : OrderRules) (txin : TxInput) (utxoValue : UInt64) (height : Nat)
    (order : SwapOrderOutput) : Prop
  | fillSell (out : TxOutput) (rest : List TxOutput) (sig taker : Bytes) (takerPkh : Pkh) (timeout : UInt64)
      (hw : parseOrderWitness txin.scriptSig order.direction = some (.fillSell sig taker takerPkh timeout))
      (hdir : order.direction = directionSell) (hopen : height ≤ order.expiryHeight.toNat)
      (htime : height < timeout.toNat) (houts : tx.outputs = out :: rest)
      (hscript : out.scriptPubkey = R.encodeSwap (sellFillSwap C order txin takerPkh timeout))
      (hvalue : out.value = order.irmAmount) (hsig : SignsInput C tx inputIndex script sig taker)
  | fillBuy (out : TxOutput) (rest : List TxOutput) (sig taker : Bytes) (hash : Hash32) (timeout : UInt64)
      (hw : parseOrderWitness txin.scriptSig order.direction = some (.fillBuy sig taker timeout))
      (hdir : order.direction = directionBuy) (hopen : height ≤ order.expiryHeight.toNat)
      (htime : height < timeout.toNat) (houts : tx.outputs = out :: rest)
      (hhash : order.expectedHash = some hash)
      (hscript : out.scriptPubkey = encodeHtlcv1Script ⟨hash, order.makerIriumdPkh, hash160 C taker, timeout⟩)
      (hvalue : out.value = order.irmAmount) (hsig : SignsInput C tx inputIndex script sig taker)
  | cancel (sig pubkey : Bytes) (hw : parseOrderWitness txin.scriptSig order.direction = some (.cancel sig pubkey))
      (hopen : height < order.expiryHeight.toNat)
      (hsig : SignedByPkh C tx inputIndex script order.makerIriumdPkh sig pubkey)
  | expireSweep (out : TxOutput) (rest : List TxOutput)
      (hw : parseOrderWitness txin.scriptSig order.direction = some .expireSweep)
      (hexpired : order.expiryHeight.toNat ≤ height)
      (houts : tx.outputs = out :: rest) (hscript : out.scriptPubkey = p2pkhScript order.makerIriumdPkh)
      (hvalue : utxoValue.toNat - swapOrderMaxSweepFee ≤ out.value.toNat)

/-- Recipient with payment proof, or refund key after the timeout. -/
inductive SwapBranch (R : SwapRules) (swap : HtlcSwapOutput) (view : ForeignView)
    (consumed : List ForeignOutpoint) (height : Nat) (scriptSig : Bytes) : Prop
  | claim (sig pubkey : Bytes) (blockHash : Hash32) (branch : List Hash32) (index : UInt32) (txRaw : Bytes)
      (hw : parseHtlcSwapWitness scriptSig = some (.claim sig pubkey blockHash branch index txRaw))
      (hsig : SignedByPkh C tx inputIndex script swap.recipientPkh sig pubkey)
      (hpay : SpvPayment C R swap view consumed blockHash branch index txRaw)
  | refund (sig pubkey : Bytes) (hw : parseHtlcSwapWitness scriptSig = some (.refund sig pubkey))
      (htime : swap.timeoutHeight.toNat ≤ height)
      (hsig : SignedByPkh C tx inputIndex script swap.refundPkh sig pubkey)

/-- One complete branch of an output, taken with what the `script_sig` of the input says. -/
inductive SpendBranch (txin : TxInput) (utxoValue : UInt64) (height : Nat) (flags : SpendFlags)
    (view : ConsensusView) (consumed : Consumed) : OutputEncumbrance → Prop
  | p2pkh {pkh : Pkh} (sig pubkey : Bytes) (hw : parseInputWitness txin.scriptSig = .p2pkh sig pubkey)
      (hsig : SignedByPkh C tx inputIndex script pkh sig pubkey) :
      SpendBranch txin utxoValue height flags view consumed (.p2pkh pkh)
  | htlcClaim {htlc : HtlcV1Output} (sig pubkey preimage : Bytes) (hact : flags.htlcv1)
      (hw : parseInputWitness txin.scriptSig = .htlcClaim sig pubkey preimage)
      (hpre : RevealsPreimage C htlc.expectedHash preimage)
      (hsig : SignedByPkh C tx inputIndex script htlc.recipientPkh sig pubkey) :
      SpendBranch txin utxoValue height flags view consumed (.htlcV1 htlc)
  | htlcRefund {htlc : HtlcV1Output} (sig pubkey : Bytes) (hact : flags.htlcv1)
      (hw : parseInputWitness txin.scriptSig = .htlcRefund sig pubkey) (htime : htlc.timeoutHeight.toNat ≤ height)
      (hsig : SignedByPkh C tx inputIndex script htlc.refundPkh sig pubkey) :
      SpendBranch txin utxoValue height flags view consumed (.htlcV1 htlc)
  | mpsoClaim {mpso : MpsoV1Output} (bitmap : UInt8) (sigs : List Bytes) (preimage : Option Bytes)
      (hact : flags.mpsov1) (hw : encodeMpsoClaimWitness bitmap sigs preimage = some txin.scriptSig)
      (htime : height < mpso.timeoutHeight.toNat)
      (hsig : SignedByMofN C tx inputIndex script mpso.claimM.toNat mpso.claimPubkeys sigs)
      (hpre : mpsoSecretGate mpso.flags → ∃ expected pre, mpso.optionalHash = some expected ∧
        preimage = some pre ∧ RevealsPreimage C expected pre) :
      SpendBranch txin utxoValue height flags view consumed (.mpsoV1 mpso)
  | mpsoRefund {mpso : MpsoV1Output} (bitmap : UInt8) (sigs : List Bytes) (hact : flags.mpsov1)
      (hw : encodeMpsoRefundWitness bitmap sigs = some txin.scriptSig) (htime : mpso.timeoutHeight.toNat ≤ height)
      (hsig : SignedByMofN C tx inputIndex script mpso.refundM.toNat mpso.refundPubkeys sigs) :
      SpendBranch txin utxoValue height flags view consumed (.mpsoV1 mpso)
  | btcSwap {swap : HtlcSwapOutput} (hact : flags.htlcBtcSwapV1)
      (hs : SwapBranch C tx inputIndex script (btcSwapRules flags.btcSwapBech32Payment) swap view.btc
        consumed.btc height txin.scriptSig) :
      SpendBranch txin utxoValue height flags view consumed (.htlcBtcSwapV1 swap)
  | ltcSwap {swap : HtlcSwapOutput} (hact : flags.htlcLtcSwapV1)
      (hs : SwapBranch C tx inputIndex script ltcSwapRules swap view.ltc consumed.ltc height txin.scriptSig) :
      SpendBranch txin utxoValue height flags view consumed (.htlcLtcSwapV1 swap)
  | swapOrder {order : SwapOrderOutput} (hact : flags.swapOrderV1)
      (ho : OrderBranch C tx inputIndex script btcOrderRules txin utxoValue height order) :
      SpendBranch txin utxoValue height flags view consumed (.swapOrder order)
  | ltcSwapOrder {order : SwapOrderOutput} (hact : flags.ltcSwapOrderV1)
      (ho : OrderBranch C tx inputIndex script ltcOrderRules txin utxoValue height order) :
      SpendBranch txin utxoValue height flags view consumed (.ltcSwapOrder order)

end

variable {C : Crypto} {tx : Transaction} {inputIndex height : Nat} {script sig pubkey : Bytes} {pkh : Pkh}

theorem signsInput_of_verify (h : verifySigWithPubkey C tx inputIndex script sig pubkey) :
    SignsInput C tx inputIndex script sig pubkey := by
  simp only [verifySigWithPubkey, refuse_eq_true] at h
  obtain ⟨-, -, -, h⟩ := h
  split at h
  next => simp at h
  next signature hder =>
    simp only [refuse_eq_true, Bool.not_eq_true, Bool.not_eq_false] at h
    exact ⟨signature, hder, h.2.1, h.1, h.2.2⟩

theorem signedByPkh_of_verify (hp : ¬ hash160 C pubkey ≠ pkh)
    (h : verifySigWithPubkey C tx inputIndex script sig pubkey) :
    SignedByPkh C tx inputIndex script pkh sig pubkey :=
  ⟨not_not.mp hp, signsInput_of_verify h⟩

theorem verifyP2pkhSpend_signed (h : verifyP2pkhSpend C tx inputIndex scriptSig script pkh) :
    ∃ sig pubkey, parseInputWitness scriptSig = .p2pkh sig pubkey ∧
      SignedByPkh C tx inputIndex script pkh sig pubkey := by
  unfold verifyP2pkhSpend at h
  split at h
  next sig pubkey hw =>
    rw [refuse_eq_true] at h
    exact ⟨sig, pubkey, hw, signedByPkh_of_verify h.1 h.2⟩
  next => simp at h

theorem verifyHtlcSpend_cases {htlc : HtlcV1Output}
    (h : verifyHtlcSpend C tx inputIndex scriptSig height htlc) :
    (∃ sig pubkey preimage, parseInputWitness scriptSig = .htlcClaim sig pubkey preimage ∧
      RevealsPreimage C htlc.expectedHash preimage ∧
      SignedByPkh C tx inputIndex (encodeHtlcv1Script htlc) htlc.recipientPkh sig pubkey) ∨
    (∃ sig pubkey, parseInputWitness scriptSig = .htlcRefund sig pubkey ∧ htlc.timeoutHeight.toNat ≤ height ∧
      SignedByPkh C tx inputIndex (encodeHtlcv1Script htlc) htlc.refundPkh sig pubkey) := by
  unfold verifyHtlcSpend at h
  split at h
  next sig pubkey preimage hw =>
    simp only [refuse_eq_true, not_or, not_not, not_lt] at h
    obtain ⟨⟨hne, hlen⟩, hhash, hpkh, hv⟩ := h
    refine .inl ⟨sig, pubkey, preimage, hw, ⟨?_, hlen, hhash⟩, signedByPkh_of_verify (not_not.mpr hpkh) hv⟩
    exact List.length_pos_iff.mpr hne
  next sig pubkey hw =>
    simp only [refuse_eq_true, not_lt] at h
    exact .inr ⟨sig, pubkey, hw, h.1, signedByPkh_of_verify h.2.1 h.2.2⟩
  next => simp at h

theorem selectedKeys_sublist (bitmap : UInt8) (i : Nat) (pks : List PubKey33) : (selectedKeys bitmap i pks).Sublist pks := by
  induction pks generalizing i with
  | nil => exact .slnil
  | cons pk pks ih =>
    rw [selectedKeys]
    split
    next => exact (ih _).cons_cons pk
    next => exact (ih _).cons pk

theorem length_selectedKeys (bitmap : UInt8) (i : Nat) (pks : List PubKey33) :
    (selectedKeys bitmap i pks).length = ((List.range' i pks.length).filter (bitSet bitmap)).length := by
  induction pks generalizing i with
  | nil => rfl
  | cons pk pks ih =>
    rw [selectedKeys, List.length_cons, List.range'_succ, List.filter_cons]
    split
    next => rw [List.length_cons, List.length_cons, ih]
    next => exact ih _

theorem SelectedSign.signedByMofN {n m bitmap : UInt8} {pubkeys : List PubKey33} {sigs : List Bytes}
    (h : SelectedSign C tx inputIndex script bitmap n m pubkeys sigs) (hlen : pubkeys.length = n.toNat)
    (hd : pubkeys.Nodup) : SignedByMofN C tx inputIndex script m.toNat pubkeys sigs := by
  have hsub := selectedKeys_sublist bitmap 0 pubkeys
  refine ⟨selectedKeys bitmap 0 pubkeys, hd.sublist hsub, hsub.subset, ?_, h.2.imp fun _ _ => signsInput_of_verify⟩
  rw [length_selectedKeys, hlen, ← List.range_eq_range', h.1.2]

section

variable {R : SwapRules} {swap : HtlcSwapOutput} {blockHash : Hash32} {branch : List Hash32} {index : UInt32}
  {txRaw : Bytes} {outpoint : ForeignOutpoint} {view : ForeignView} {consumed' : List ForeignOutpoint}

theorem paysSwap_of_bindsSwap {o : ForeignOutput} (h : bindsSwap R swap o) :
    paysSwap R swap o = false := by
  unfold bindsSwap at h
  unfold paysSwap
  split at h
  next data hs => simp [hs]
  next => simp at h

theorem scanOutputs_spec {outs : List ForeignOutput} {pays pays' : Bool} {vout vout' : Option UInt32}
    (h : scanOutputs R swap outs pays vout = some (pays', vout')) :
    pays' = (pays || outs.any (paysSwap R swap)) ∧
    vout.toList ++ (outs.filter (bindsSwap R swap)).map ForeignOutput.vout = vout'.toList := by
  induction outs generalizing pays vout with
  | nil =>
    simp only [scanOutputs, Option.some.injEq, Prod.mk.injEq] at h
    obtain ⟨rfl, rfl⟩ := h
    simp
  | cons o os ih =>
    unfold scanOutputs at h
    split at h
    next hb =>
      rw [refuse_eq_some] at h
      obtain ⟨hnone, h⟩ := h
      obtain ⟨hp, hv⟩ := ih h
      have hvn : vout = none := by simpa using hnone
      refine ⟨by simp [hp, paysSwap_of_bindsSwap hb], ?_⟩
      rw [← hv, hvn]
      simp [hb]
    next hb =>
      obtain ⟨hp, hv⟩ := ih h
      refine ⟨by simp [hp, Bool.or_assoc], ?_⟩
      rw [← hv]
      simp [hb]

theorem provenPayment_passed {relay : Relay}
    (h : provenPayment C R swap relay blockHash branch index txRaw = some outpoint) :
    ∃ txid height entry outs payment binding, relay.heights.lookup blockHash = some height ∧
      relay.headers.lookup blockHash = some entry ∧
      swap.confirmationsRequired.toNat ≤ relay.tipHeight + 1 - height ∧
      btcTxid C txRaw = some txid ∧
      computeMerkleRoot C txid branch index = entry.header.merkleRoot ∧
      parseBtcTxOutputs txRaw = some outs ∧
      payment ∈ outs ∧ paysSwap R swap payment ∧
      outs.filter (bindsSwap R swap) = [binding] ∧ outpoint = (txid, binding.vout) := by
  simp only [provenPayment, Option.bind_eq_bind, Option.bind_eq_some_iff, Option.guard_eq_some',
    exists_const, Option.pure_def, Option.some.injEq] at h
  obtain ⟨height, hh, hconf, entry, he, txid, htx, hroot, outs, houts, ⟨pays, vout⟩, hscan, hpays, v,
    hv, rfl⟩ := h
  obtain ⟨hp, hb⟩ := scanOutputs_spec hscan
  have hv : vout = some v := hv
  have hany : outs.any (paysSwap R swap) := by
    rw [show pays from hpays] at hp
    simpa using hp.symm
  obtain ⟨payment, hpm, hpp⟩ := List.any_eq_true.mp hany
  rw [hv] at hb
  obtain ⟨binding, hbind, hbv⟩ := List.map_eq_singleton_iff.mp (by simpa using hb)
  subst hbv
  exact ⟨txid, height, entry, outs, payment, binding, hh, he, hconf, htx, hroot, houts, hpm, hpp, hbind, rfl⟩

theorem provenPayment_spec (h : provenPayment C R swap view.relay blockHash branch index txRaw = some outpoint)
    (hnew : outpoint ∉ view.claimed) (hc : outpoint ∉ consumed) :
    SpvPayment C R swap view consumed blockHash branch index txRaw := by
  obtain ⟨txid, height, entry, outs, payment, binding, hh, he, hconf, htx, hroot, houts, hpm, hpp, hbind, rfl⟩ :=
    provenPayment_passed h
  exact ⟨txid, height, entry, outs, payment, binding, hh, he, hconf, htx, hroot, houts, hpm, hpp, hbind, hnew, hc⟩

theorem verifySwapSpend_iff :
    verifySwapSpend C R tx inputIndex scriptSig height swap view consumed = some consumed' ↔
      (∃ sig pubkey, parseHtlcSwapWitness scriptSig = some (.refund sig pubkey) ∧ swap.timeoutHeight.toNat ≤ height ∧
        hash160 C pubkey = swap.refundPkh ∧
        verifySigWithPubkey C tx inputIndex (R.encode swap) sig pubkey ∧ consumed = consumed') ∨
      ∃ sig pubkey blockHash branch index txRaw op,
        parseHtlcSwapWitness scriptSig = some (.claim sig pubkey blockHash branch index txRaw) ∧
        provenPayment C R swap view.relay blockHash branch index txRaw = some op ∧ op ∉ view.claimed ∧
        op ∉ consumed ∧ hash160 C pubkey = swap.recipientPkh ∧
        verifySigWithPubkey C tx inputIndex (R.encode swap) sig pubkey ∧ consumed ++ [op] = consumed' := by
  rw [verifySwapSpend]
  cases parseHtlcSwapWitness scriptSig with
  | none => simp
  | some w => cases w <;> simp [Option.bind_eq_some_iff, and_assoc]

theorem verifySwapSpend_spec
    (h : verifySwapSpend C R tx inputIndex scriptSig height swap view consumed = some consumed') :
    SwapBranch C tx inputIndex (R.encode swap) R swap view consumed height scriptSig ∧
    (consumed' = consumed ∨
      ∃ outpoint, outpoint ∉ view.claimed ∧ outpoint ∉ consumed ∧ consumed' = consumed ++ [outpoint]) := by
  rcases verifySwapSpend_iff.mp h with ⟨_, _, hw, htime, hpkh, hsig, rfl⟩ |
    ⟨_, _, _, _, _, _, op, hw, hpay, hnew, hc, hpkh, hsig, rfl⟩
  · exact ⟨.refund _ _ hw htime ⟨hpkh, signsInput_of_verify hsig⟩, .inl rfl⟩
  · refine ⟨.claim _ _ _ _ _ _ hw ⟨hpkh, signsInput_of_verify hsig⟩ (provenPayment_spec hpay hnew hc), .inr ?_⟩
    exact ⟨op, hnew, hc, rfl⟩

end

theorem verifyOrderSpend_spec {R : OrderRules} {txin : TxInput} {utxoValue : UInt64}
    {order : SwapOrderOutput}
    (h : verifyOrderSpend C R tx inputIndex txin utxoValue height order) :
    OrderBranch C tx inputIndex (R.encodeOrder order) R txin utxoValue height order := by
  unfold verifyOrderSpend at h
  split at h
  next => simp at h
  next sig pubkey takerPkh timeout hw =>
    simp only [refuse_eq_true, not_not, not_lt, not_le] at h
    obtain ⟨hdir, hopen, htime, h⟩ := h
    split at h
    next => simp at h
    next out rest houts =>
      simp only [refuse_eq_true, not_not] at h
      exact .fillSell out rest sig pubkey takerPkh timeout hw hdir hopen htime houts h.1 h.2.1
        (signsInput_of_verify h.2.2)
  next sig pubkey irmTimeout hw =>
    simp only [refuse_eq_true, not_not, not_lt, not_le] at h
    obtain ⟨hdir, hopen, htime, h⟩ := h
    split at h
    next out rest hash houts hhash =>
      simp only [refuse_eq_true, not_not] at h
      exact .fillBuy out rest sig pubkey hash irmTimeout hw hdir hopen htime houts hhash h.1 h.2.1
        (signsInput_of_verify h.2.2)
    next => simp at h
  next sig pubkey hw =>
    simp only [refuse_eq_true, not_le] at h
    exact .cancel sig pubkey hw h.1 (signedByPkh_of_verify h.2.1 h.2.2)
  next hw =>
    rw [refuse_eq_true, not_lt] at h
    obtain ⟨hexp, h⟩ := h
    split at h
    next => simp at h
    next out rest houts =>
      simp only [refuse_eq_true, not_not, decide_eq_true_eq] at h
      exact .expireSweep out rest hw hexp houts h.1 h.2

def ParsedAs (script : Bytes) : OutputEncumbrance → Prop
  | .p2pkh pkh => parseP2pkhScript script = some pkh
  | .htlcV1 htlc => parseHtlcv1Script script = some htlc
  | .mpsoV1 mpso => parseMpsoScript script = some mpso
  | .htlcBtcSwapV1 swap => parseHtlcBtcSwapV1Script script = some swap
  | .htlcLtcSwapV1 swap => parseHtlcLtcSwapV1Script script = some swap
  | .swapOrder order => parseSwapOrderScript script = some order
  | .ltcSwapOrder order => parseLtcSwapOrderScript script = some order
  | .unknown => True

theorem parseOutputEncumbrance_parsedAs (script : Bytes) :
    ParsedAs script (parseOutputEncumbrance script) := by
  unfold parseOutputEncumbrance
  split
  next h => exact h
  next =>
    split
    next h => exact h
    next =>
      split
      next h => exact h
      next =>
        split
        next h => exact h
        next =>
          split
          next h => exact h
          next =>
            split
            next h => exact h
            next =>
              split
              next h => exact h
              next => exact True.intro

structure Consumed.Unclaimed (view : ConsensusView) (c : Consumed) : Prop where
  btc : ∀ op ∈ c.btc, op ∉ view.btc.claimed
  ltc : ∀ op ∈ c.ltc, op ∉ view.ltc.claimed

theorem unclaimed_append {claimed : Finset ForeignOutpoint} {c c' : List ForeignOutpoint}
    (hc : ∀ op ∈ c, op ∉ claimed)
    (h : c' = c ∨ ∃ op, op ∉ claimed ∧ op ∉ c ∧ c' = c ++ [op]) : ∀ op ∈ c', op ∉ claimed := by
  intro op hop
  rcases h with rfl | ⟨new, hnew, -, rfl⟩
  · exact hc op hop
  · rcases List.mem_append.mp hop with hop | hop
    · exact hc op hop
    · rwa [List.mem_singleton.mp hop]

section

variable {txin : TxInput} {utxo : TxOutput} {flags : SpendFlags} {view : ConsensusView}
  {consumed consumed' : Consumed}

theorem verifyTransactionSignature_branch
    (h : verifyTransactionSignature C tx inputIndex txin utxo height flags view consumed = some consumed') :
    SpendBranch C tx inputIndex utxo.scriptPubkey txin utxo.value height flags view consumed
      (parseOutputEncumbrance utxo.scriptPubkey) := by
  have hparsed := parseOutputEncumbrance_parsedAs utxo.scriptPubkey
  unfold verifyTransactionSignature at h
  cases hE : parseOutputEncumbrance utxo.scriptPubkey <;> rw [hE] at h hparsed <;> dsimp only at h
  case p2pkh pkh =>
    rw [Option.ite_none_right_eq_some] at h
    obtain ⟨sig, pubkey, hw, hsig⟩ := verifyP2pkhSpend_signed h.1
    exact .p2pkh sig pubkey hw hsig
  case htlcV1 htlc =>
    rw [refuse_eq_some, Option.ite_none_right_eq_some, Bool.not_eq_false] at h
    have hs := verifyHtlcSpend_cases h.2.1
    rw [encodeHtlcv1Script_of_parse hparsed] at hs
    rcases hs with ⟨sig, pubkey, preimage, hwit, hpre, hsig⟩ | ⟨sig, pubkey, hwit, htime, hsig⟩
    · exact .htlcClaim sig pubkey preimage h.1 hwit hpre hsig
    · exact .htlcRefund sig pubkey h.1 hwit htime hsig
  case mpsoV1 mpso =>
    rw [refuse_eq_some, Option.ite_none_right_eq_some, Bool.not_eq_false] at h
    obtain ⟨hact, hv, -⟩ := h
    obtain ⟨hw, henc⟩ := parseMpsoScript_spec hparsed
    rw [verifyMpsoSpend_iff hw, henc] at hv
    obtain ⟨-, ⟨htime, bitmap, sigs, preimage, hwit, hsign, hunlock⟩ | ⟨htime, bitmap, sigs, hwit, hsign⟩⟩ := hv
    · refine .mpsoClaim bitmap sigs preimage hact hwit htime (hsign.signedByMofN hw.claimLength hw.claimNodup)
        fun hgate => ?_
      cases preimage with
      | none => exact absurd (hgate.symm.trans hunlock) (by simp)
      | some pre => exact ⟨_, pre, hunlock.2.2.2, rfl, hunlock.2.1, hunlock.2.2.1, rfl⟩
    · exact .mpsoRefund bitmap sigs hact hwit htime (hsign.signedByMofN hw.refundLength hw.refundNodup)
  case htlcBtcSwapV1 swap =>
    rw [refuse_eq_some, Option.map_eq_some_iff, Bool.not_eq_false] at h
    obtain ⟨hact, btc, hv, -⟩ := h
    have hs := (verifySwapSpend_spec hv).1
    rw [show (btcSwapRules flags.btcSwapBech32Payment).encode swap = utxo.scriptPubkey from
      encodeHtlcSwapScript_of_parse hparsed] at hs
    exact .btcSwap hact hs
  case htlcLtcSwapV1 swap =>
    rw [refuse_eq_some, Option.map_eq_some_iff, Bool.not_eq_false] at h
    obtain ⟨hact, ltc, hv, -⟩ := h
    have hs := (verifySwapSpend_spec hv).1
    rw [show ltcSwapRules.encode swap = utxo.scriptPubkey from encodeHtlcSwapScript_of_parse hparsed] at hs
    exact .ltcSwap hact hs
  case swapOrder order =>
    rw [refuse_eq_some, Option.ite_none_right_eq_some, Bool.not_eq_false] at h
    have hs := verifyOrderSpend_spec h.2.1
    rw [show btcOrderRules.encodeOrder order = utxo.scriptPubkey from encodeOrderScript_of_parse hparsed] at hs
    exact .swapOrder h.1 hs
  case ltcSwapOrder order =>
    rw [refuse_eq_some, Option.ite_none_right_eq_some, Bool.not_eq_false] at h
    have hs := verifyOrderSpend_spec h.2.1
    rw [show ltcOrderRules.encodeOrder order = utxo.scriptPubkey from encodeOrderScript_of_parse hparsed] at hs
    exact .ltcSwapOrder h.1 hs
  case unknown => simp at h

theorem verifyTransactionSignature_unclaimed (hc : consumed.Unclaimed view)
    (h : verifyTransactionSignature C tx inputIndex txin utxo height flags view consumed = some consumed') :
    consumed'.Unclaimed view := by
  unfold verifyTransactionSignature at h
  cases hE : parseOutputEncumbrance utxo.scriptPubkey <;> rw [hE] at h <;> dsimp only at h
  case htlcBtcSwapV1 swap =>
    rw [refuse_eq_some, Option.map_eq_some_iff] at h
    obtain ⟨-, btc, hv, rfl⟩ := h
    exact ⟨unclaimed_append hc.btc (verifySwapSpend_spec hv).2, hc.ltc⟩
  case htlcLtcSwapV1 swap =>
    rw [refuse_eq_some, Option.map_eq_some_iff] at h
    obtain ⟨-, ltc, hv, rfl⟩ := h
    exact ⟨hc.btc, unclaimed_append hc.ltc (verifySwapSpend_spec hv).2⟩
  case unknown => simp at h
  all_goals
    -- the other kinds leave the consumed outpoints as they are
    simp only [refuse_eq_some, Option.ite_none_right_eq_some, Option.some.injEq] at h
    first
      | rwa [← h.2.2]
      | rwa [← h.2]

end

end IriumConsensus
