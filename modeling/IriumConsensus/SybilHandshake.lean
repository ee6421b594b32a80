import IriumConsensus.BlockRelay

namespace IriumConsensus

open ByteCodec Checks

structure SybilChallenge where
  nonce : Hash32
  timestamp : UInt64
  difficulty : UInt8

structure SybilProof where
  challenge : SybilChallenge
  solution : UInt64
  peerPubkey : Bytes

def SybilChallenge.toBytes (c : SybilChallenge) : Bytes :=
  c.nonce.bytes ++ (beVec 8 c.timestamp.toNat).bytes ++ [c.difficulty]

def SybilChallenge.fromBytes (data : Bytes) : Option SybilChallenge := do
  let nonce ← sliceVec 32 0 data
  let timestamp ← sliceVec 8 32 data
  let difficulty ← data[40]?
  return ⟨nonce, UInt64.ofNat timestamp.toNat, difficulty⟩

def SybilProof.toBytes (p : SybilProof) : Bytes :=
  p.challenge.toBytes ++ (beVec 8 p.solution.toNat).bytes ++ p.peerPubkey

def SybilProof.fromBytes (data : Bytes) : Option SybilProof := do
  let challenge ← SybilChallenge.fromBytes (data.take 41)
  let solution ← sliceVec 8 41 data
  return ⟨challenge, UInt64.ofNat solution.toNat, data.drop 49⟩

structure SybilEnv where
  difficulty : Option UInt8
  difficultyMax : Option UInt8
  bannedBump : Option UInt8

def SybilEnv.sybilDifficulty (e : SybilEnv) : UInt8 := (e.difficulty.filter (0 < ·)).getD 8

def SybilEnv.sybilBannedBump (e : SybilEnv) (bannedCount : UInt8) : UInt8 :=
  let bump := e.bannedBump.getD 2
  if bump = 0 then 0 else min bannedCount bump

/-- What an inbound handshake reads apart from the peer's reply. -/
structure Inbound where
  env : SybilEnv
  addr : String
  trustedSeed : Bool
  bannedCount : Nat
  nonce : Hash32
  issuedAt : UInt64
  now : UInt64

namespace Inbound

def difficulty (x : Inbound) : UInt8 :=
  let base := x.env.sybilDifficulty
  let max := (x.env.difficultyMax.filter (0 < ·)).getD 20
  if x.trustedSeed then base
  else min max (UInt8.ofNat (min 255 (base.toNat + (x.env.sybilBannedBump (UInt8.ofNat x.bannedCount)).toNat)))

def challenge (x : Inbound) : SybilChallenge := ⟨x.nonce, x.issuedAt, x.difficulty⟩

end Inbound

inductive PeerReply
  | earlyEof (e : String)
  | failed (e : String)
  | message (m : Message)

section

variable (C : Crypto)

def SybilProof.verify (p : SybilProof) : Bool := p.challenge.difficulty.toNat ≤ leadingZeroBits (C.sha256 p.toBytes)

/-- The handshake that issued the challenge is not read. -/
def SybilProof.verifyProof (p : SybilProof) (now : UInt64) : Bool :=
  if 300 < now.toNat - p.challenge.timestamp.toNat then false else p.verify C

/-- The part of an inbound connection up to its acceptance, with the key the peer is known by. -/
def Inbound.handshake (x : Inbound) (peer : Message → PeerReply) : Except String Bytes := do
  let proofMsg ← match peer ⟨.sybilChallenge, x.challenge.toBytes⟩ with
    | .earlyEof e => .error s!"early eof during sybil proof from {x.addr}: {e}"
    | .failed e => .error e
    | .message m => pure m
  failIf (proofMsg.msgType ≠ .sybilProof) "expected sybil proof from peer"
  let proof ← orFail (SybilProof.fromBytes proofMsg.payload) "invalid sybil proof payload"
  failIf (proof.verifyProof C x.now = false) "sybil proof verification failed"
  return proof.peerPubkey

/-- The work that answers a challenge for one key. -/
def SybilChallenge.SolvedBy (c : SybilChallenge) (solution : UInt64) (key : Bytes) : Prop :=
  c.difficulty.toNat ≤ leadingZeroBits (C.sha256 (c.toBytes ++ (beVec 8 solution.toNat).bytes ++ key))

end

def PeerReply.Presents (r : PeerReply) (p : SybilProof) : Prop :=
  ∃ payload, r = .message ⟨.sybilProof, payload⟩ ∧ SybilProof.fromBytes payload = some p

variable {C : Crypto} {p : SybilProof} {peer : Message → PeerReply}

theorem PeerReply.Presents.unique {r : PeerReply} {q : SybilProof} (hp : r.Presents p) (hq : r.Presents q) : p = q := by
  obtain ⟨_, rfl, hp⟩ := hp
  obtain ⟨_, h, hq⟩ := hq
  obtain ⟨-, rfl⟩ := Message.mk.inj (PeerReply.message.inj h)
  exact Option.some.inj (hp.symm.trans hq)

theorem SybilProof.verifyProof_eq_true {now : UInt64} : p.verifyProof C now ↔
    now.toNat - p.challenge.timestamp.toNat ≤ 300 ∧ p.challenge.SolvedBy C p.solution p.peerPubkey := by
  rw [verifyProof]
  split
  · next hage => exact iff_of_false (by simp) fun hv => absurd hv.1 (not_le.mpr hage)
  · next hage => exact decide_eq_true_iff.trans (and_iff_right (not_lt.mp hage)).symm

theorem Inbound.handshake_eq_ok {x : Inbound} {key : Bytes} :
    x.handshake C peer = .ok key ↔ ∃ p, (peer ⟨.sybilChallenge, x.challenge.toBytes⟩).Presents p ∧
      x.now.toNat - p.challenge.timestamp.toNat ≤ 300 ∧ p.challenge.SolvedBy C p.solution p.peerPubkey ∧
      p.peerPubkey = key := by
  rw [handshake]
  cases peer ⟨.sybilChallenge, x.challenge.toBytes⟩ with
  | earlyEof e => simp [PeerReply.Presents, bind_eq_ok]
  | failed e => simp [PeerReply.Presents, bind_eq_ok]
  | message m =>
    obtain ⟨msgType, payload⟩ := m
    simp only [PeerReply.Presents, PeerReply.message.injEq, Message.mk.injEq, bind_eq_ok, pure_eq_ok, exists_unit,
      failIf_eq_ok, orFail_eq_ok, exists_eq_left', not_not, Bool.not_eq_false, SybilProof.verifyProof_eq_true]
    constructor
    · rintro ⟨rfl, p, hp, hok, rfl⟩
      exact ⟨p, ⟨payload, ⟨rfl, rfl⟩, hp⟩, hok.1, hok.2, rfl⟩
    · rintro ⟨p, ⟨_, ⟨rfl, rfl⟩, hp⟩, hage, hsolved, rfl⟩
      exact ⟨rfl, p, hp, ⟨hage, hsolved⟩, rfl⟩

/-- If the peer is accepted, it has solved the challenge it was given. -/
def Inbound.Binds (C : Crypto) (x : Inbound) (peer : Message → PeerReply) : Prop :=
  ∀ key, x.handshake C peer = .ok key → ∃ p, (peer ⟨.sybilChallenge, x.challenge.toBytes⟩).Presents p ∧
    p.challenge = x.challenge ∧ p.peerPubkey = key ∧ x.challenge.SolvedBy C p.solution key

/-- A peer that sends back no challenge but the one it is given. -/
def Echoes (peer : Message → PeerReply) : Prop :=
  ∀ (x : Inbound) p, (peer ⟨.sybilChallenge, x.challenge.toBytes⟩).Presents p → p.challenge = x.challenge

/-- A peer that does the work for the challenge it sends, whichever that is. -/
def Works (C : Crypto) (peer : Message → PeerReply) : Prop :=
  ∀ m p, (peer m).Presents p → p.challenge.SolvedBy C p.solution p.peerPubkey

theorem Echoes.binds (h : Echoes peer) (x : Inbound) : x.Binds C peer := by
  intro key hok
  obtain ⟨p, hp, -, hsolved, rfl⟩ := Inbound.handshake_eq_ok.mp hok
  have hissued := h x p hp
  exact ⟨p, hp, hissued, rfl, hissued ▸ hsolved⟩

/-- Challenges bind a peer that sends back the one it is given; of the peers that do the work for what they send, they
bind no other. -/
theorem sybil_binding_iff (peer : Message → PeerReply) :
    (Echoes peer → ∀ x : Inbound, x.Binds C peer) ∧
      (Works C peer → ((∀ x : Inbound, x.Binds C peer) ↔ Echoes peer)) := by
  refine ⟨Echoes.binds, fun hwork => ⟨fun hbinds x p hp => ?_, Echoes.binds⟩⟩
  -- the same challenge, checked when the one in the proof is fresh
  have hok : { x with now := p.challenge.timestamp }.handshake C peer = .ok p.peerPubkey :=
    Inbound.handshake_eq_ok.mpr ⟨p, hp, by simp, hwork _ p hp, rfl⟩
  obtain ⟨q, hq, hissued, -, -⟩ := hbinds _ _ hok
  rw [hp.unique hq]
  exact hissued

def plainInbound : Inbound := ⟨⟨none, none, none⟩, "198.51.100.7:38291", false, 0, ByteVec.zero 32, 1800000000, 1800000002⟩

/-- A proof made before the handshake for a challenge of the peer's own, which asks for no work. -/
def ownChallengeProof : SybilProof := ⟨⟨ByteVec.zero 32, 1800000000, 0⟩, 0, [2]⟩

theorem sybil_own_challenge :
    plainInbound.challenge.difficulty = 8 ∧
      plainInbound.handshake shaCrypto (fun _ => .message ⟨.sybilProof, ownChallengeProof.toBytes⟩) = .ok [2] ∧
      ¬plainInbound.challenge.SolvedBy shaCrypto ownChallengeProof.solution [2] := by
  refine ⟨by decide, by decide +kernel, ?_⟩
  rw [SybilChallenge.SolvedBy]
  decide +kernel

end IriumConsensus
