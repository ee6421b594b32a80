import IriumConsensus.Mempool
import IriumConsensus.Confirmations

namespace IriumConsensus

open ByteCodec Checks Stateful

variable {s s₁ s₂ : ChainState}

/-- A request to `/rpc/submitbtcheaders`; `headers` is what `headers_hex` stands for, if it is hex. -/
structure SubmitBtcHeadersRequest where
  headers : Option Bytes
  feePerByte : Option Nat
  broadcast : Option Bool

structure WalletUtxo where
  outpoint : OutPoint
  output : TxOutput
  height : Nat
  isCoinbase : Bool
  pkh : Pkh
  deriving DecidableEq

/-- The node's wallet: the key hashes it lists, each decoded if it is hex, and how it signs. -/
structure Wallet where
  keys : Option (List (Option Bytes))
  signWalletInputs : Transaction → List WalletUtxo → Option Transaction

structure RpcError where
  status : Nat
  reason : String
  deriving DecidableEq, Repr

def badRequest (reason : String) : RpcError := ⟨400, reason⟩

structure SubmitBtcHeadersResponse where
  txid : Hash32
  accepted : Bool
  headersCount : Nat
  fee : Nat
  rawTx : Bytes

def encodeBtcHeaderBatch (headers : List ForeignHeader) : Except String Bytes := do
  failIf (headers = []) "btc header batch: empty"
  failIf (maxBtcHeadersPerBatch < headers.length)
    s!"btc header batch: {headers.length} headers exceeds max {maxBtcHeadersPerBatch}"
  return [btcHeaderBatchTag, 0x01] ++ leList 2 headers.length ++ headers.flatMap ForeignHeader.serialize

def estimateTxSize (inputs outputs : Nat) : Nat := 10 + inputs * 148 + outputs * 34

def saturatingMul64 (a b : Nat) : Nat := min (a * b) u64Max

/-- The key hashes of the wallet; those of another length are passed over. -/
def Wallet.keyMap (w : Wallet) : Except RpcError (List Pkh) := do
  let keys ← orFail w.keys (badRequest "wallet_keys_unavailable")
  let decoded ← keys.mapM fun k => orFail k (badRequest "wallet_key_pkh_decode_failed")
  let pkhs := decoded.filterMap fun b => if b.length = 20 then sliceVec 20 0 b else none
  failIf (pkhs = []) (badRequest "wallet_key_map_empty")
  return pkhs

/-- What keys can spend among the outputs of the chain, in the order the table lists them. -/
def collectUtxos (pkhs : List Pkh) (utxos : List (OutPoint × UtxoEntry)) : List WalletUtxo :=
  utxos.filterMap fun (outpoint, utxo) => do
    let pkh ← parseP2pkhScript utxo.output.scriptPubkey
    guard (pkh ∈ pkhs)
    return ⟨outpoint, utxo.output, utxo.height, utxo.isCoinbase, pkh⟩

/-- Inputs, their total and the fee: outputs are taken until the fee is covered. -/
def selectForBatch (E : NodeEnv) (tipHeight scriptLen feePerByte : Nat) :
    List WalletUtxo → Nat → Nat → List WalletUtxo → List WalletUtxo × Nat × Nat
  | selected, total, fee, [] => (selected, total, fee)
  | selected, total, fee, u :: us =>
    if u.isCoinbase ∧ tipHeight - u.height < coinbaseMaturity E then
      selectForBatch E tipHeight scriptLen feePerByte selected total fee us
    else
      let selected := selected ++ [u]
      let total := min (total + u.output.value.toNat) u64Max
      let fee := saturatingMul64 (min (estimateTxSize selected.length 2 + scriptLen) u64Max) feePerByte
      if fee ≤ total then (selected, total, fee) else selectForBatch E tipHeight scriptLen feePerByte selected total fee us

def Transaction.setChange (tx : Transaction) (change : Nat) : Transaction :=
  { tx with outputs := tx.outputs.modify 0 fun out => { out with value := UInt64.ofNat change } }

/-- Sign, and sign again with a smaller change where the fee falls short, at most `rounds` times. -/
def signWithFee (w : Wallet) (selected : List WalletUtxo) (feePerByte : Nat) :
    Nat → Nat → Nat → Transaction → Except RpcError Transaction
  | 0, _, _, tx => .ok tx
  | rounds + 1, fee, change, tx => do
    let tx ← orFail (w.signWalletInputs tx selected) (badRequest "sign_wallet_inputs_failed")
    let needed := saturatingMul64 tx.serialize.length feePerByte
    if fee < needed then do
      failIf (change < needed - fee) (badRequest "fee_recalculation_exceeded_change")
      signWithFee w selected feePerByte rounds needed (change - (needed - fee)) (tx.setChange (change - (needed - fee)))
    else return tx

variable (C : Crypto) (E : NodeEnv)

def buildCarrier (w : Wallet) (s : ChainState) (utxos : List (OutPoint × UtxoEntry)) (req : SubmitBtcHeadersRequest) :
    Except RpcError (Transaction × Nat × Nat) := do
  failIf (s.params.btcSpv.all (fun p => s.height < p.activationHeight)) ⟨503, "btc_spv_relay_not_active"⟩
  let raw ← orFail req.headers (badRequest "headers_hex_decode_failed")
  failIf (raw = [] ∨ raw.length % 80 ≠ 0) (badRequest "headers_hex_length_not_multiple_of_80")
  let count := raw.length / 80
  failIf (count = 0 ∨ maxBtcHeadersPerBatch < count) (badRequest "header_count_out_of_range")
  let (headers, _) ← (readMany readForeignHeader count raw).mapError fun _ => badRequest "btc_header_deserialize_failed"
  let script ← (encodeBtcHeaderBatch headers).mapError fun _ => badRequest "encode_btc_header_batch_failed"
  let pkhs ← w.keyMap
  let spendable := collectUtxos pkhs utxos
  failIf (spendable = []) (badRequest "wallet_utxo_set_empty")
  let feePerByte := max (req.feePerByte.getD 1) 1
  let (selected, total, fee) := selectForBatch E s.tipHeight script.length feePerByte [] 0 0
    (spendable.insertionSort fun a b => b.output.value ≤ a.output.value)
  failIf (total < fee) (badRequest "insufficient_spendable_funds_for_header_batch_fee")
  let first ← orFail selected.head? (badRequest "no_change_pkh_available")
  let change := total - fee
  let inputs := selected.map fun u => ⟨u.outpoint.txid, u.outpoint.index, [], 0xffffffff⟩
  let tx ← signWithFee w selected feePerByte 2 fee change
    ⟨1, inputs, [⟨UInt64.ofNat change, p2pkhScript first.pkh⟩, ⟨0, script⟩], 0⟩
  let checked ← (s.calculateFees C E tx).mapError fun _ => badRequest "chain_fee_calculation_failed"
  return (tx, checked, count)

/-- `submit_btc_headers_core`: the headers go into a transaction of the pool. -/
def submitBtcHeaders (A : Ambient) (w : Wallet) (s : ChainState) (utxos : List (OutPoint × UtxoEntry))
    (req : SubmitBtcHeadersRequest) (peerIp : Option IpAddr) : Run Mempool RpcError SubmitBtcHeadersResponse := do
  let (tx, fee, count) ← lift (buildCarrier C E w s utxos req)
  let accepted ← fun m =>
    if req.broadcast.getD true ∧ tx.txid C ∉ m.entries then
      let r := addTransactionWithPriority C A tx tx.serialize fee .zeroFeeAllowed peerIp m
      (.ok r.1.isOk, r.2)
    else (.ok false, m)
  return ⟨tx.txid C, accepted, count, fee, tx.serialize⟩

/-- Where a download of Bitcoin headers stands: the next height to fetch and the last. -/
structure Download where
  next : Nat
  target : Nat
  deriving DecidableEq, Repr

def bootstrapMargin : Nat := 12
def bootstrapChunkSize : Nat := 2016

/-- What `maybe_bootstrap_btc_headers` sets out to fetch. `skip` is the operator's switch and `btcTip` the height
that the service names, if it answers. -/
def planBootstrap (s : ChainState) (skip : Bool) (btcTip : Option Nat) : Option Download := do
  guard (networkKind E = .mainnet)
  guard (skip = false)
  let params ← resolveBtcSpvParams E none
  guard (params.anchor ≠ Anchor.zero)
  let tip ← btcTip
  let target := tip - bootstrapMargin
  let existing := s.btc.relay.tipHeight
  let start := if existing = 0 then params.anchor.height + 1 else existing + 1
  guard (start ≤ target)
  return ⟨start, target⟩

/-- The service has answered for the next chunk; a failure of any kind ends the download. -/
def applyChunk (s : ChainState) (now : UInt32) (d : Download) (reply : Except String (List ForeignHeader)) :
    Option Download × Relay :=
  let applied := do
    let headers ← reply.toOption
    let params ← resolveBtcSpvParams E none
    (applyBtcHeaderBatch C headers now s.btc.relay params.anchor).toOption
  match applied with
  | none => (none, s.btc.relay)
  | some (_, relay) =>
    let chunkEnd := min (d.next + bootstrapChunkSize - 1) d.target
    (if chunkEnd + 1 ≤ d.target then some ⟨chunkEnd + 1, d.target⟩ else none, relay)

/-- What a running node holds behind its locks, and the download that runs beside it. -/
structure Node where
  chain : ChainState
  mempool : Mempool
  download : Option Download

inductive NodeEvent where
  | connect (A : Ambient) (b : Block)
  | submit (A : Ambient) (w : Wallet) (utxos : List (OutPoint × UtxoEntry)) (req : SubmitBtcHeadersRequest)
      (peerIp : Option IpAddr)
  | bootstrap (skip : Bool) (btcTip : Option Nat)
  | chunk (now : UInt32) (reply : Except String (List ForeignHeader))

namespace Node

def handle (n : Node) : NodeEvent → Except String Node
  | .connect A b => match ChainState.connectBlock C E A b n.chain with
    | (.ok _, chain) => .ok { n with chain }
    | (.error e, _) => .error e
  | .submit A w utxos req peerIp =>
    .ok { n with mempool := (submitBtcHeaders C E A w n.chain utxos req peerIp n.mempool).2 }
  | .bootstrap skip btcTip => .ok { n with download := planBootstrap E n.chain skip btcTip }
  | .chunk now reply => match n.download with
    | none => .ok n
    | some d =>
      let (download, relay) := applyChunk C E n.chain now d reply
      .ok { n with chain := { n.chain with btc := { n.chain.btc with relay } }, download }

def run (n : Node) : List NodeEvent → Except String Node
  | [] => .ok n
  | e :: es => do run (← handle C E n e) es

/-- A node that has just started, with whatever pool it has read from its disk. -/
def Booted (params : ChainParams) (n : Node) : Prop :=
  (∃ A, ChainState.new C E A params = some n.chain) ∧ n.download = none

end Node

def NodeEvent.block : NodeEvent → Option Block
  | .connect _ b => some b
  | _ => none

def connected (es : List NodeEvent) : List Block := es.filterMap NodeEvent.block

/-- If the event starts the download, there is nothing to fetch: the node is not on mainnet, its operator has
switched the download off, the service does not answer, or its tip is no more than the margin above the relay's. -/
def NodeEvent.Idle (s : ChainState) : NodeEvent → Prop
  | .bootstrap skip btcTip => networkKind E = .mainnet → skip = false → ∀ tip ∈ btcTip,
      tip ≤ bootstrapMargin + if s.btc.relay.tipHeight = 0 then mainnetBtcAnchor.height else s.btc.relay.tipHeight
  | _ => True

/-- No event of the run starts a download that has something to fetch. -/
def IdleRun : Node → List NodeEvent → Prop
  | _, [] => True
  | n, e :: es => e.Idle E n.chain ∧ ∀ n', n.handle C E e = .ok n' → IdleRun n' es

theorem connected_cons (e : NodeEvent) (es : List NodeEvent) : connected (e :: es) = e.block.toList ++ connected es := by
  rw [connected, List.filterMap_cons]
  cases e.block <;> rfl

variable {C : Crypto} {E : NodeEnv} {params : ChainParams} {n n' n₁ n₂ : Node} {e : NodeEvent} {es es' : List NodeEvent}

theorem planBootstrap_idle {skip : Bool} {btcTip : Option Nat}
    (h : (NodeEvent.bootstrap skip btcTip).Idle E s) : planBootstrap E s skip btcTip = none := by
  rw [Option.eq_none_iff_forall_not_mem]
  intro d hd
  simp only [planBootstrap, Option.mem_def, Option.bind_eq_bind, Option.bind_eq_some_iff, Option.guard_eq_some',
    exists_const] at hd
  obtain ⟨hmain, hskip, p, hp, -, tip, htip, hstart, -⟩ := hd
  have hanchor : p.anchor = mainnetBtcAnchor := by
    simp only [resolveBtcSpvParams, resolveSpvParams, hmain, Option.bind_eq_bind, Option.bind_eq_some_iff] at hp
    obtain ⟨_, -, hp⟩ := hp
    split at hp
    next => cases hp
    next => cases hp; rfl
  have hle := h hmain hskip tip htip
  rw [hanchor] at hstart
  split at hstart
  next h0 =>
    rw [if_pos h0] at hle
    omega
  next h0 =>
    rw [if_neg h0] at hle
    omega

namespace ChainState

theorem connectBlock_unique {A A' : Ambient} {b : Block} {u u' : Unit}
    (h₁ : connectBlock C E A b s = (.ok u, s₁)) (h₂ : connectBlock C E A' b s = (.ok u', s₂)) : s₁ = s₂ := by
  obtain ⟨-, undo, L, happly, -, rfl⟩ := connectBlock_eq_ok.mp h₁
  obtain ⟨-, undo', L', happly', -, rfl⟩ := connectBlock_eq_ok.mp h₂
  obtain ⟨⟨⟩, rfl⟩ := Prod.mk.inj (happly.symm.trans happly')
  rfl

theorem new_unique {A A' : Ambient} (h₁ : new C E A params = some s₁)
    (h₂ : new C E A' params = some s₂) : s₁ = s₂ := by
  obtain ⟨undo, L, happly, rfl⟩ := new_eq_some h₁
  obtain ⟨undo', L', happly', rfl⟩ := new_eq_some h₂
  obtain ⟨⟨⟩, rfl⟩ := Prod.mk.inj (happly.symm.trans happly')
  rfl

inductive Connects (C : Crypto) (E : NodeEnv) : List Block → ChainState → ChainState → Prop
  | nil (s : ChainState) : Connects C E [] s s
  | cons {A : Ambient} {b : Block} {bs : List Block} {s s₁ s₂ : ChainState} {u : Unit}
      (hb : connectBlock C E A b s = (.ok u, s₁)) (hbs : Connects C E bs s₁ s₂) : Connects C E (b :: bs) s s₂

theorem Connects.unique {bs : List Block} (h₁ : Connects C E bs s s₁)
    (h₂ : Connects C E bs s s₂) : s₁ = s₂ := by
  induction h₁ with
  | nil => cases h₂; rfl
  | cons hb _ ih =>
    cases h₂ with
    | cons hb' hbs' =>
      obtain rfl := connectBlock_unique hb hb'
      exact ih hbs'

end ChainState

open ChainState

namespace Node

theorem handle_idle (hidle : e.Idle E n.chain) (hn : n.download = none) (h : n.handle C E e = .ok n')
    {bs : List Block} (hbs : Connects C E bs n'.chain s) :
    n'.download = none ∧ Connects C E (e.block.toList ++ bs) n.chain s := by
  cases e with
  | connect A b =>
    rw [handle] at h
    split at h
    next chain hconnect =>
      cases h
      exact ⟨hn, .cons hconnect hbs⟩
    next => cases h
  | submit =>
    cases h
    exact ⟨hn, hbs⟩
  | bootstrap =>
    cases h
    exact ⟨planBootstrap_idle hidle, hbs⟩
  | chunk =>
    rw [handle, hn] at h
    cases h
    exact ⟨hn, hbs⟩

theorem run_idle (hidle : IdleRun C E n es) (hn : n.download = none) (h : n.run C E es = .ok n') :
    Connects C E (connected es) n.chain n'.chain := by
  induction es generalizing n with
  | nil =>
    cases h
    exact .nil _
  | cons e es ih =>
    obtain ⟨m, hm, hrest⟩ := bind_eq_ok.mp h
    have hdownload := (handle_idle hidle.1 hn hm (.nil _)).1
    have hstep := (handle_idle hidle.1 hn hm (ih (hidle.2 m hm) hdownload hrest)).2
    rwa [connected_cons]

/-- While no node downloads headers on its own, the blocks alone decide the relay and what connects next. -/
theorem relay_from_blocks {n₁' n₂' : Node} (hb₁ : Booted C E params n₁) (hb₂ : Booted C E params n₂)
    (hidle₁ : IdleRun C E n₁ es) (hidle₂ : IdleRun C E n₂ es') (hrun₁ : n₁.run C E es = .ok n₁')
    (hrun₂ : n₂.run C E es' = .ok n₂') (hsame : connected es = connected es') :
    n₁'.chain.btc.relay = n₂'.chain.btc.relay ∧
      ∀ A b, (connectBlock C E A b n₁'.chain).1 = (connectBlock C E A b n₂'.chain).1 := by
  obtain ⟨⟨A₁, hnew₁⟩, hdown₁⟩ := hb₁
  obtain ⟨⟨A₂, hnew₂⟩, hdown₂⟩ := hb₂
  have hstart : n₁.chain = n₂.chain := new_unique hnew₁ hnew₂
  have hfirst := run_idle hidle₁ hdown₁ hrun₁
  have hsecond := run_idle hidle₂ hdown₂ hrun₂
  rw [← hstart, ← hsame] at hsecond
  have hchain : n₁'.chain = n₂'.chain := hfirst.unique hsecond
  rw [hchain]
  exact ⟨rfl, fun _ _ => rfl⟩

theorem idleRun_of_ne_mainnet (hE : networkKind E ≠ .mainnet) (n : Node) (es : List NodeEvent) : IdleRun C E n es := by
  induction es generalizing n with
  | nil => trivial
  | cons e es ih =>
    refine ⟨?_, fun m _ => ih m⟩
    cases e <;> first | trivial | exact fun hmain => absurd hmain hE

/-- It brings a header and pays `keyOne`. -/
def carrierFunding : Block :=
  devnetBlock lockedGenesisHash (beVec 32 0x2e03982353d809066fa2f2b7147f54065187a553ba7e228837a2cfc47e2c212d)
    1767583931 0 [coinbaseTx [] [batchOutput [paymentHeader], ⟨5000000000, p2pkhScript keyOnePkh⟩]]

def carriedHeader (nonce : UInt32) : ForeignHeader :=
  foreignHeader paymentHeaderHash (ByteVec.zero 32) 1296688800 nonce

def emptyPool : Mempool := ⟨∅, 1000, 0, 0, ∅⟩

def freshNode (chain : ChainState) : Node := ⟨chain, emptyPool, none⟩

def busyEvents : List NodeEvent :=
  [.bootstrap false (some 900000), .submit quietAmbient ⟨some [], fun _ _ => none⟩ [] ⟨some [], none, none⟩ none,
    .connect quietAmbient carrierFunding, .chunk 1296688800 (.ok [carriedHeader 7])]

theorem devnet_relays_agree :
    ∃ n₁ n₂ n₁' n₂' : Node, Booted shaCrypto swapNode swapParams n₁ ∧ Booted shaCrypto swapNode swapParams n₂ ∧
      n₁.run shaCrypto swapNode busyEvents = .ok n₁' ∧
      n₂.run shaCrypto swapNode [.connect quietAmbient carrierFunding] = .ok n₂' ∧
      n₁'.chain.btc.relay.tip = some paymentHeaderHash ∧ n₁'.chain.btc.relay = n₂'.chain.btc.relay := by
  have hstart : (ChainState.new shaCrypto swapNode quietAmbient swapParams).any (fun s =>
      ((freshNode s).run shaCrypto swapNode busyEvents).toOption.any
          (fun n => n.chain.btc.relay.tip = some paymentHeaderHash) &&
        ((freshNode s).run shaCrypto swapNode [.connect quietAmbient carrierFunding]).toOption.isSome) := by
    decide +kernel
  obtain ⟨s, hnew, hruns⟩ := (Option.any_eq_true _ _).mp hstart
  obtain ⟨hbusy, hplain⟩ := (Bool.and_eq_true _ _).mp hruns
  obtain ⟨n₁', hrun₁, htip⟩ := (Option.any_eq_true _ _).mp hbusy
  obtain ⟨n₂', hrun₂⟩ := Option.isSome_iff_exists.mp hplain
  have hboot : Booted shaCrypto swapNode swapParams (freshNode s) := ⟨⟨quietAmbient, hnew⟩, rfl⟩
  refine ⟨freshNode s, freshNode s, n₁', n₂', hboot, hboot, toOption_eq_some.mp hrun₁, toOption_eq_some.mp hrun₂,
    of_decide_eq_true htip, ?_⟩
  exact (relay_from_blocks hboot hboot (idleRun_of_ne_mainnet (by decide) _ _) (idleRun_of_ne_mainnet (by decide) _ _)
    (toOption_eq_some.mp hrun₁) (toOption_eq_some.mp hrun₂) rfl).1

def minedHeader : ForeignHeader where
  version := 0x20000000
  prevHash := mainnetBtcAnchor.hash
  merkleRoot := ByteVec.zero 32
  time := 1737337900
  bits := 0x17028c61
  nonce := 0

/-- SHA-256 with the work of `minedHeader` done. -/
def minedCrypto : Crypto :=
  { shaCrypto with
    sha256 := fun bs => if bs = (Sha2.sha256 minedHeader.serialize).bytes then leVec 32 1 else Sha2.sha256 bs }

def mainnetParams : ChainParams := nodeParams mainnetNode none none lockedGenesis

def downloadEvents (now : UInt32) (header : ForeignHeader) : List NodeEvent :=
  [.bootstrap false (some 880013), .chunk now (.ok [header])]

/-- A header for the block after the anchor, with the work that its bits ask for. -/
structure AfterAnchor (C : Crypto) (now : UInt32) (header : ForeignHeader) : Prop where
  links : header.prevHash = mainnetBtcAnchor.hash
  bits : header.bits = mainnetBtcAnchor.bits
  later : mainnetBtcAnchor.time.toNat < header.time.toNat
  timely : header.time.toNat ≤ min (now.toNat + 7200) (2 ^ 32 - 1)
  work : meetsTargetBtc (header.blockHash C) ⟨header.bits⟩

section

variable {now : UInt32} {header : ForeignHeader} (h : AfterAnchor C now header)

include h

theorem AfterAnchor.staged (work : Nat) :
    stageHeader C btcRules .empty mainnetBtcAnchor now [] 0 ⟨header.prevHash, mainnetBtcAnchor.height, work⟩ header =
      .ok ⟨header, 880001, work + workForBits header.bits⟩ := by
  have hbits : ∀ fuel view, expectedBitsForV btcRules fuel 880001 mainnetBtcAnchor.hash view mainnetBtcAnchor =
      .ok mainnetBtcAnchor.bits := fun _ _ => by simp [expectedBitsForV, btcRules, btcRetarget]
  have hmtp : ∀ view, medianTimePastV mainnetBtcAnchor.hash view mainnetBtcAnchor = mainnetBtcAnchor.time.toNat :=
    fun _ => by simp [medianTimePastV, timesBack, medianOf]
  have hpow : btcRules.headerPow (header.blockHash C) header := h.work
  simp only [stageHeader, show mainnetBtcAnchor.height + 1 = 880001 from rfl, h.links, h.bits, hbits, hmtp, hpow,
    failIf_eq_ok, bind_eq_ok, exists_unit, pure_eq_ok]
  exact ⟨fun hne => hne rfl, Finmap.notMem_empty, List.not_mem_nil, Bool.noConfusion, fun hne => hne rfl,
    not_le.mpr h.later, not_lt.mpr h.timely, trivial⟩

theorem AfterAnchor.applied :
    ∃ u r, applyBtcHeaderBatch C [header] now .empty mainnetBtcAnchor = .ok (u, r) ∧ r.tipHeight = 880001 := by
  have hnext : ∀ cur, knownNext C .empty cur header = none := fun cur => by
    rw [knownNext, show Relay.empty.headers.lookup (header.blockHash C) = none from Finmap.lookup_empty _, ite_self]
  have hwork : 0 < workForBits mainnetBtcAnchor.bits := by decide +kernel
  let work := workForBits mainnetBtcAnchor.bits
  let entry : HeaderEntry := ⟨header, 880001, work + workForBits header.bits⟩
  have hstage : applyAfterPrefix C btcRules .empty mainnetBtcAnchor now [header]
      ⟨header.prevHash, mainnetBtcAnchor.height, work⟩ [header] =
        .ok (⟨none, 0, [header.blockHash C]⟩, commitStaged .empty mainnetBtcAnchor [(header.blockHash C, entry)]) := by
    simp only [applyAfterPrefix, stageHeaders, h.staged, List.length_singleton, Nat.sub_self]
    rfl
  refine ⟨⟨none, 0, [header.blockHash C]⟩, commitStaged .empty mainnetBtcAnchor [(header.blockHash C, entry)], ?_, ?_⟩
  · simp only [applyBtcHeaderBatch, List.head?_cons, bind_eq_ok, orFail_eq_ok, exists_unit, failIf_eq_ok, startCursor]
    refine ⟨header, rfl, by decide, _, if_pos h.links, ?_⟩
    simp only [allKnownAndMatching, knownPrefix, hnext, Bool.false_eq_true, if_false]
    exact hstage
  · have hless : work < entry.totalWork := by
      simp only [entry, h.bits]
      omega
    exact congrArg Prod.snd (if_pos hless)

/-- Two nodes boot alike, one downloads the header, and no block connects on either. -/
def DownloadDiverges (C : Crypto) (now : UInt32) (header : ForeignHeader) : Prop :=
  ∃ n n' : Node, Booted C mainnetNode mainnetParams n ∧
    n.run C mainnetNode (downloadEvents now header) = .ok n' ∧ n.run C mainnetNode [] = .ok n ∧
    connected (downloadEvents now header) = connected [] ∧
    n'.chain.btc.relay.tipHeight = 880001 ∧ n.chain.btc.relay.tipHeight = 0

theorem AfterAnchor.diverges
    (hnew : ∃ s, ChainState.new C mainnetNode quietAmbient mainnetParams = some s ∧ s.btc.relay = .empty) :
    DownloadDiverges C now header := by
  obtain ⟨s, hs, hempty⟩ := hnew
  obtain ⟨u, r, happly, htip⟩ := h.applied
  have hplan : planBootstrap mainnetNode s false (some 880013) = some ⟨880001, 880001⟩ := by
    rw [planBootstrap, hempty]
    decide
  obtain ⟨params, hparams, hanchor⟩ := exists_of_any (resolveBtcSpvParams mainnetNode none)
    (fun params => params.anchor = mainnetBtcAnchor) (by decide)
  have hchunk : applyChunk C mainnetNode s now ⟨880001, 880001⟩ (.ok [header]) = (none, r) := by
    simp only [applyChunk, Except.toOption, hparams, hanchor, hempty, happly, Option.bind_eq_bind, Option.bind_some]
    rfl
  refine ⟨freshNode s, ⟨{ s with btc := { s.btc with relay := r } }, emptyPool, none⟩, ⟨⟨quietAmbient, hs⟩, rfl⟩, ?_,
    rfl, rfl, htip, by rw [freshNode, hempty]; rfl⟩
  simp only [downloadEvents, run, handle, freshNode, hplan, bind_eq_ok]
  refine ⟨_, rfl, _, ?_, rfl⟩
  simp only [hchunk]

end

theorem mainnet_download_diverges :
    (∀ now header, AfterAnchor shaCrypto now header → DownloadDiverges shaCrypto now header) ∧
      DownloadDiverges minedCrypto 1737340000 minedHeader :=
  ⟨fun _ _ h => h.diverges (exists_of_any _ _ (by decide +kernel)),
    AfterAnchor.diverges ⟨rfl, rfl, by decide, by decide, by decide +kernel⟩
      (exists_of_any _ _ (by decide +kernel))⟩

end Node

end IriumConsensus
