import IriumConsensus.Lib.Checks
import IriumConsensus.Lib.FinMap
import IriumConsensus.Lib.Hex
import IriumConsensus.Script
import Mathlib.Data.List.Sort

namespace IriumConsensus

open ByteCodec Checks FinMaps

/-- `BtcHeader` and `LtcHeader`: 80 bytes on the wire. -/
structure ForeignHeader where
  version : UInt32
  prevHash : Hash32
  merkleRoot : Hash32
  time : UInt32
  bits : UInt32
  nonce : UInt32
  deriving DecidableEq, Repr

def ForeignHeader.serialize (h : ForeignHeader) : Bytes :=
  le32 h.version ++ h.prevHash.bytes ++ h.merkleRoot.bytes ++ le32 h.time ++ le32 h.bits ++ le32 h.nonce

def readForeignHeader : Reader ForeignHeader := do
  let version ← readU32 eofError
  let prevHash ← readVec 32 eofError
  let merkleRoot ← readVec 32 eofError
  let time ← readU32 eofError
  let bits ← readU32 eofError
  let nonce ← readU32 eofError
  return ⟨version, prevHash, merkleRoot, time, bits, nonce⟩

def parseHeaderBatch (label : String) (tag : UInt8) (maxHeaders : Nat) (script : Bytes) :
    Except String (List ForeignHeader) := do
  failIf (script.length < 4) (label ++ " header batch: script too short")
  failIf (script[0]? ≠ some tag) (label ++ " header batch: wrong tag")
  failIf (script[1]? ≠ some 0x01) (label ++ " header batch: unknown version")
  let count := leNat ((script.drop 2).take 2)
  failIf (count = 0 ∨ maxHeaders < count) (label ++ " header batch: count " ++ toString count ++ " out of range")
  failIf (script.length ≠ 4 + 80 * count)
    (label ++ " header batch: wrong size (got " ++ toString script.length ++ ", expected " ++
      toString (4 + 80 * count) ++ ")")
  let (headers, _) ← readMany readForeignHeader count (script.drop 4)
  return headers

def maxBtcHeadersPerBatch : Nat := 2016
def maxLtcHeadersPerBatch : Nat := 144
def parseBtcHeaderBatch := parseHeaderBatch "btc" btcHeaderBatchTag maxBtcHeadersPerBatch
def parseLtcHeaderBatch := parseHeaderBatch "ltc" ltcHeaderBatchTag maxLtcHeadersPerBatch

structure HeaderEntry where
  header : ForeignHeader
  height : Nat
  totalWork : Nat
  deriving DecidableEq, Repr

structure Anchor where
  hash : Hash32
  height : Nat
  bits : UInt32
  time : UInt32
  deriving DecidableEq, Repr

def Anchor.zero : Anchor := ⟨ByteVec.zero 32, 0, 0, 0⟩

structure RetargetParams where
  window : Nat
  expectedTimespanSecs : Nat
  maxTargetBits : UInt32
  minTimespanDivisor : Nat
  maxTimespanMultiplier : Nat
  deriving DecidableEq, Repr

def btcRetarget : RetargetParams := ⟨2016, 14 * 24 * 3600, 0x1d00ffff, 4, 4⟩
def litecoinRetarget : RetargetParams := ⟨2016, 302400, 0x1e0fffff, 4, 4⟩

inductive RetargetError where
  | heightZero
  | parentUnknown
  | windowBeforeAnchor
  | walkReachedAnchor
  | walkMissingHeader
  | walkedPast
  deriving DecidableEq, Repr

def RetargetError.message : RetargetError → String
  | .heightZero => "expected_bits: height 0 has no parent"
  | .parentUnknown => "expected_bits: parent unknown"
  | .windowBeforeAnchor => "expected_bits: retarget window reaches before anchor"
  | .walkReachedAnchor => "retarget walk: reached anchor without finding target height"
  | .walkMissingHeader => "retarget walk: missing header in chain"
  | .walkedPast => "retarget walk: walked past target height"

inductive RelayError where
  | emptyBatch
  | tooManyHeaders (count : Nat)
  | anchorNotConfigured
  | failsPow (i : Nat)
  | firstDoesNotConnect
  | nonTipFork
  | doesNotLink (i : Nat)
  | alreadyKnown (i : Nat)
  | duplicated (i : Nat)
  | retarget (e : RetargetError)
  | bitsMismatch (i : Nat) (expected got : UInt32)
  | timeNotAboveMtp (i : Nat) (time mtp : Nat)
  | timeTooFarAhead (i : Nat) (time blockTime : Nat)
  deriving DecidableEq, Repr

def hexU32 (x : UInt32) : String := "0x" ++ encodeHex (le32 x).reverse

def RelayError.message (label : String) : RelayError → String
  | .retarget e => e.message
  | e => "apply_" ++ label ++ "_header_batch: " ++ match e with
    | .emptyBatch => "empty batch"
    | .tooManyHeaders n => toString n ++ " headers exceeds max " ++ toString maxLtcHeadersPerBatch
    | .anchorNotConfigured => "anchor not configured"
    | .failsPow i => "header " ++ toString i ++ " fails PoW"
    | .firstDoesNotConnect => "first header does not connect to known chain"
    | .nonTipFork => "known prefix followed by non-tip fork"
    | .doesNotLink i => "header " ++ toString i ++ " does not link to previous"
    | .alreadyKnown i => "header " ++ toString i ++ " already known in chain state"
    | .duplicated i => "header " ++ toString i ++ " duplicated within batch"
    | .bitsMismatch i expected got => "header " ++ toString i ++ " bits mismatch (expected " ++
        hexU32 expected ++ ", got " ++ hexU32 got ++ ")"
    | .timeNotAboveMtp i time mtp => "header " ++ toString i ++ " time " ++ toString time ++
        " not above MTP " ++ toString mtp
    | .timeTooFarAhead i time blockTime => "header " ++ toString i ++ " time " ++ toString time ++
        " more than 2h ahead of iriumd block time " ++ toString blockTime
    | .retarget e => e.message

/-- The relay half of the chain state: `*_headers`, `*_heights`, `*_tip` and `*_tip_height`. -/
structure Relay where
  headers : FinMap Hash32 HeaderEntry
  heights : FinMap Hash32 Nat
  tip : Option Hash32
  tipHeight : Nat
  deriving DecidableEq

def Relay.empty : Relay := ⟨∅, ∅, none, 0⟩

structure RelayUpdate where
  tipBefore : Option Hash32
  tipHeightBefore : Nat
  headersAdded : List Hash32
  deriving DecidableEq, Repr

variable (C : Crypto)

def ForeignHeader.blockHash (h : ForeignHeader) : Hash32 := sha256d C h.serialize

def workForBits (bits : UInt32) : Nat := 2 ^ 256 / (Target.toTarget ⟨bits⟩ + 1)

/-- `BigUint::to_bytes_be` of a positive number. -/
def toBytesBe (value : Nat) : Bytes := (leList (byteLength value) value).reverse

/-- `target_to_compact_bits`, which `btc_spv.rs` and `ltc_spv.rs` both spell out. -/
def targetToCompactBits (target : Nat) : UInt32 :=
  if target = 0 then 0 else
    let bytes := toBytesBe target
    let size := bytes.length
    let compact := if size ≤ 3 then beNat bytes <<< (8 * (3 - size)) else beNat (bytes.take 3)
    if compact.testBit 23 then UInt32.ofNat ((size + 1) * 2 ^ 24 + compact / 256)
    else UInt32.ofNat (size * 2 ^ 24 + compact)

/-- `LookupView::get`: committed headers first, then those staged by the same batch. -/
def viewGet (committed : FinMap Hash32 HeaderEntry) (staged : List (Hash32 × HeaderEntry))
    (hash : Hash32) : Option HeaderEntry :=
  match committed.lookup hash with
  | some e => some e
  | none => (staged.reverse.find? fun p => p.1 = hash).map Prod.snd

/-- The times of up to `n` headers, walking back from `cur` and ending at the anchor. -/
def timesBack (view : Hash32 → Option HeaderEntry) (anchor : Anchor) : Nat → Hash32 → List Nat
  | 0, _ => []
  | n + 1, cur =>
    if cur = anchor.hash then [anchor.time.toNat]
    else match view cur with
      | some e => e.header.time.toNat :: timesBack view anchor n e.header.prevHash
      | none => []

def medianOf (times : List Nat) : Nat := ((times.insertionSort (· ≤ ·))[times.length / 2]?).getD 0

def medianTimePastV (parent : Hash32) (view : Hash32 → Option HeaderEntry) (anchor : Anchor) : Nat :=
  medianOf (timesBack view anchor 11 parent)

/-- The walk to the header at `targetHeight`. Heights fall by one at each link, so a walk never
visits more headers than the view holds and the fuel given to it is enough. -/
def findAncestorTimeFrom (view : Hash32 → Option HeaderEntry) (anchor : Anchor) (targetHeight : Nat) :
    Nat → Hash32 → Except RetargetError Nat
  | 0, _ => .error .walkMissingHeader
  | fuel + 1, cur =>
    if cur = anchor.hash then .error .walkReachedAnchor
    else match view cur with
      | none => .error .walkMissingHeader
      | some e =>
        if e.height = targetHeight then .ok e.header.time.toNat
        else if e.height < targetHeight then .error .walkedPast
        else findAncestorTimeFrom view anchor targetHeight fuel e.header.prevHash

def findAncestorTimeAtHeightV (fuel : Nat) (parent : Hash32) (targetHeight : Nat)
    (view : Hash32 → Option HeaderEntry) (anchor : Anchor) : Except RetargetError Nat :=
  if targetHeight = anchor.height then .ok anchor.time.toNat
  else findAncestorTimeFrom view anchor targetHeight fuel parent

/-- What separates the two relays: how a header's work is checked while a batch is staged and
where the retarget window begins. -/
structure RelayRules where
  headerPow : Hash32 → ForeignHeader → Bool
  retarget : RetargetParams
  firstHeight : Nat → Nat

def btcRules : RelayRules where
  headerPow hash header := meetsTargetBtc hash ⟨header.bits⟩
  retarget := btcRetarget
  firstHeight height := height - btcRetarget.window

/-- Litecoin checks work before staging, and its window begins one block earlier. -/
def ltcRules (retarget : RetargetParams) : RelayRules where
  headerPow _ _ := true
  retarget := retarget
  firstHeight height := if height = retarget.window then height - retarget.window
    else height - retarget.window - 1

def clampTimespan (p : RetargetParams) (actual : Nat) : Nat :=
  min (max actual (p.expectedTimespanSecs / p.minTimespanDivisor))
    (min (p.expectedTimespanSecs * p.maxTimespanMultiplier) (2 ^ 32 - 1))

def expectedBitsForV (R : RelayRules) (fuel height : Nat) (parent : Hash32)
    (view : Hash32 → Option HeaderEntry) (anchor : Anchor) : Except RetargetError UInt32 := do
  if height = 0 then throw .heightZero
  let (parentBits, parentTime) ←
    if parent = anchor.hash then pure (anchor.bits, anchor.time)
    else match view parent with
      | some e => pure (e.header.bits, e.header.time)
      | none => throw .parentUnknown
  if height % R.retarget.window ≠ 0 then return parentBits
  if R.firstHeight height < anchor.height then throw .windowBeforeAnchor
  let firstTime ← findAncestorTimeAtHeightV fuel parent (R.firstHeight height) view anchor
  let timespan := clampTimespan R.retarget (parentTime.toNat - firstTime)
  let newTarget := Target.toTarget ⟨parentBits⟩ * timespan / R.retarget.expectedTimespanSecs
  return targetToCompactBits (min newTarget (Target.toTarget ⟨R.retarget.maxTargetBits⟩))

structure Cursor where
  hash : Hash32
  height : Nat
  work : Nat
  deriving DecidableEq, Repr

/-- `header` is stored as the successor of `cur`; the cursor moves on to it. -/
def knownNext (r : Relay) (cur : Cursor) (header : ForeignHeader) : Option Cursor :=
  if header.prevHash ≠ cur.hash then none
  else match r.headers.lookup (header.blockHash C) with
    | none => none
    | some e =>
      if e.height ≠ cur.height + 1 ∨ e.header ≠ header then none
      else some ⟨header.blockHash C, cur.height + 1, e.totalWork⟩

def knownPrefix (r : Relay) (cur : Cursor) : List ForeignHeader → Cursor × List ForeignHeader
  | [] => (cur, [])
  | h :: hs => match knownNext C r cur h with
    | some next => knownPrefix r next hs
    | none => (cur, h :: hs)

def startCursor (r : Relay) (anchor : Anchor) (first : ForeignHeader) : Except RelayError Cursor :=
  if first.prevHash = anchor.hash then .ok ⟨first.prevHash, anchor.height, workForBits anchor.bits⟩
  else match r.headers.lookup first.prevHash with
    | some parent => .ok ⟨first.prevHash, parent.height, parent.totalWork⟩
    | none => .error .firstDoesNotConnect

/-- The checks on one header of a batch that extends `cur`; the new entry on success. -/
def stageHeader (R : RelayRules) (r : Relay) (anchor : Anchor) (blockTime : UInt32)
    (staged : List (Hash32 × HeaderEntry)) (i : Nat) (cur : Cursor) (header : ForeignHeader) :
    Except RelayError HeaderEntry := do
  failIf (header.prevHash ≠ cur.hash) (.doesNotLink i)
  let height := cur.height + 1
  let hash := header.blockHash C
  failIf (hash ∈ r.headers) (.alreadyKnown i)
  failIf (hash ∈ staged.map Prod.fst) (.duplicated i)
  failIf (R.headerPow hash header = false) (.failsPow i)
  let view := viewGet r.headers staged
  let fuel := r.headers.entries.card + staged.length + 1
  match expectedBitsForV R fuel height cur.hash view anchor with
  | .ok expected =>
    failIf (Target.toTarget ⟨header.bits⟩ ≠ Target.toTarget ⟨expected⟩) (.bitsMismatch i expected header.bits)
  -- below the first full window the claimed bits are taken as they are
  | .error .windowBeforeAnchor => pure ()
  | .error e => throw (.retarget e)
  let mtp := medianTimePastV cur.hash view anchor
  failIf (header.time.toNat ≤ mtp) (.timeNotAboveMtp i header.time.toNat mtp)
  failIf (min (blockTime.toNat + 7200) (2 ^ 32 - 1) < header.time.toNat)
    (.timeTooFarAhead i header.time.toNat blockTime.toNat)
  return ⟨header, height, cur.work + workForBits header.bits⟩

def stageHeaders (R : RelayRules) (r : Relay) (anchor : Anchor) (blockTime : UInt32) :
    List (Hash32 × HeaderEntry) → Nat → Cursor → List ForeignHeader →
      Except RelayError (List (Hash32 × HeaderEntry))
  | staged, _, _, [] => .ok staged
  | staged, i, cur, h :: hs => do
    let e ← stageHeader C R r anchor blockTime staged i cur h
    let hash := h.blockHash C
    stageHeaders R r anchor blockTime (staged ++ [(hash, e)]) (i + 1) ⟨hash, e.height, e.totalWork⟩ hs

def noHeadersAdded (r : Relay) : RelayUpdate := ⟨r.tip, r.tipHeight, []⟩

def tipAfter (r : Relay) (anchor : Anchor) (headers : FinMap Hash32 HeaderEntry)
    (staged : List (Hash32 × HeaderEntry)) : Option Hash32 × Nat :=
  let tipWork := match r.tip with
    | some h => ((headers.lookup h).map HeaderEntry.totalWork).getD 0
    | none => workForBits anchor.bits
  match staged.getLast? with
  | some (hash, e) => if tipWork < e.totalWork then (some hash, e.height) else (r.tip, r.tipHeight)
  | none => (r.tip, r.tipHeight)

def commitStaged (r : Relay) (anchor : Anchor) (staged : List (Hash32 × HeaderEntry)) : Relay where
  headers := insertAll r.headers staged
  heights := insertAll r.heights (staged.map fun p => (p.1, p.2.height))
  tip := (tipAfter r anchor (insertAll r.headers staged) staged).1
  tipHeight := (tipAfter r anchor (insertAll r.headers staged) staged).2

/-- The part of `apply_*_header_batch` after the known prefix has been found. -/
def applyAfterPrefix (R : RelayRules) (r : Relay) (anchor : Anchor) (blockTime : UInt32)
    (headers : List ForeignHeader) (cur : Cursor) (rest : List ForeignHeader) :
    Except RelayError (RelayUpdate × Relay) := do
  if rest = [] then return (noHeadersAdded r, r)
  let known := headers.length - rest.length
  failIf (0 < known ∧ cur.height < r.tipHeight) .nonTipFork
  let staged ← stageHeaders C R r anchor blockTime [] known cur rest
  return (⟨r.tip, r.tipHeight, staged.map Prod.fst⟩, commitStaged r anchor staged)

/-- The probe that `apply_btc_header_batch` runs before it looks for the known prefix. -/
def allKnownAndMatching (r : Relay) (cur : Cursor) : List ForeignHeader → Bool
  | [] => true
  | h :: hs => match knownNext C r cur h with
    | some next => allKnownAndMatching r next hs
    | none => false

def applyBtcHeaderBatch (headers : List ForeignHeader) (blockTime : UInt32) (r : Relay)
    (anchor : Anchor) : Except RelayError (RelayUpdate × Relay) := do
  let first ← orFail headers.head? .emptyBatch
  failIf (anchor = Anchor.zero) .anchorNotConfigured
  let start ← startCursor r anchor first
  if allKnownAndMatching C r start headers then return (noHeadersAdded r, r)
  let found := knownPrefix C r start headers
  applyAfterPrefix C btcRules r anchor blockTime headers found.1 found.2

/-- `LtcHeader::meets_pow`. -/
def ForeignHeader.meetsPow (h : ForeignHeader) : Bool :=
  meetsTargetBtc (C.scryptPow h.serialize) ⟨h.bits⟩

/-- The first header whose scrypt hash misses its target is reported. -/
def checkLtcPow (headers : List ForeignHeader) : Except RelayError Unit :=
  match headers.findIdx? fun h => !h.meetsPow C with
  | some i => .error (.failsPow i)
  | none => .ok ()

def applyLtcHeaderBatch (headers : List ForeignHeader) (blockTime : UInt32) (r : Relay)
    (anchor : Anchor) (retarget : RetargetParams) : Except RelayError (RelayUpdate × Relay) := do
  let first ← orFail headers.head? .emptyBatch
  failIf (maxLtcHeadersPerBatch < headers.length) (.tooManyHeaders headers.length)
  failIf (anchor = Anchor.zero) .anchorNotConfigured
  checkLtcPow C headers
  let start ← startCursor r anchor first
  let found := knownPrefix C r start headers
  applyAfterPrefix C (ltcRules retarget) r anchor blockTime headers found.1 found.2

/-- `undo_btc_relay_update` and `undo_ltc_relay_update`. -/
def undoRelayUpdate (u : RelayUpdate) (r : Relay) : Relay where
  headers := eraseAll r.headers u.headersAdded
  heights := eraseAll r.heights u.headersAdded
  tip := u.tipBefore
  tipHeight := u.tipHeightBefore

end IriumConsensus
