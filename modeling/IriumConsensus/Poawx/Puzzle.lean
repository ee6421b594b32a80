import IriumConsensus.Poawx.Ticket

namespace IriumConsensus

open ByteCodec Checks

inductive PuzzleMode where
  | sha256dAnchor
  | randomMemory
  | parallelCompute
  | verificationWork
  | finalityWorkPlaceholder
  deriving DecidableEq, Repr

def PuzzleMode.id : PuzzleMode → UInt8
  | .sha256dAnchor => 0
  | .randomMemory => 1
  | .parallelCompute => 2
  | .verificationWork => 3
  | .finalityWorkPlaceholder => 4

def PuzzleMode.fromIndex (i : UInt8) : PuzzleMode :=
  match i.toNat % 5 with
  | 0 => .sha256dAnchor
  | 1 => .randomMemory
  | 2 => .parallelCompute
  | 3 => .verificationWork
  | _ => .finalityWorkPlaceholder

structure PuzzleDifficultyProfile where
  anchorBits : Nat := 8
  memWords : Nat := 64
  lanes : Nat := 4
  iterations : Nat := 16
  deriving DecidableEq, Repr

def PuzzleDifficultyProfile.clamped (p : PuzzleDifficultyProfile) : PuzzleDifficultyProfile where
  anchorBits := min p.anchorBits 24
  memWords := min (max p.memWords 1) 4096
  lanes := min (max p.lanes 1) 16
  iterations := min p.iterations 4096

def PuzzleDifficultyProfile.serialize (p : PuzzleDifficultyProfile) : Bytes :=
  [UInt8.ofNat p.clamped.anchorBits] ++ leList 4 p.clamped.memWords ++ [UInt8.ofNat p.clamped.lanes] ++
    leList 4 p.clamped.iterations

structure PuzzleChallengeV1 where
  candidateDigest : Hash32
  assignmentProofDigest : Hash32
  seed : Hash32
  mode : PuzzleMode
  profile : PuzzleDifficultyProfile
  challengeDigest : Hash32
  deriving DecidableEq, Repr

structure PuzzleSolutionV1 where
  mode : UInt8
  nonce : UInt64
  proofDigest : Hash32
  deriving DecidableEq, Repr

def puzzleSolutionWire : Nat := 41

def PuzzleSolutionV1.serialize (s : PuzzleSolutionV1) : Bytes :=
  [s.mode] ++ le64 s.nonce ++ s.proofDigest.bytes

variable (C : Crypto) (E : NodeEnv)

def assignPuzzleMode (networkId : UInt8) (targetHeight : Nat) (roleId : UInt8) (solverPkh : Pkh)
    (ticketDigest assignmentProofDigest seed : Hash32) : PuzzleMode :=
  PuzzleMode.fromIndex
    ((C.sha256 (asciiBytes "IRIUM_POAWX_PUZZLE_MODE_V1" ++ [networkId] ++ leList 8 targetHeight ++ [roleId] ++
      solverPkh.bytes ++ ticketDigest.bytes ++ assignmentProofDigest.bytes ++ seed.bytes)).bytes.headD 0)

def PuzzleChallengeV1.build (networkId : UInt8) (targetHeight : Nat) (roleId : UInt8) (solverPkh : Pkh)
    (ticketDigest assignmentProofDigest candidateDigest seed : Hash32) (profile : PuzzleDifficultyProfile) :
    PuzzleChallengeV1 :=
  let mode := assignPuzzleMode C networkId targetHeight roleId solverPkh ticketDigest assignmentProofDigest seed
  { candidateDigest, assignmentProofDigest, seed, mode, profile := profile.clamped
    challengeDigest :=
      C.sha256 (asciiBytes "IRIUM_POAWX_PUZZLE_CHALLENGE_V1" ++ [networkId] ++ leList 8 targetHeight ++ [roleId] ++
        solverPkh.bytes ++ ticketDigest.bytes ++ assignmentProofDigest.bytes ++ candidateDigest.bytes ++
        seed.bytes ++ [mode.id] ++ profile.clamped.serialize) }

def anchorOutput (challengeDigest : Hash32) (nonce : UInt64) : Hash32 :=
  sha256d C (asciiBytes "IRIUM_POAWX_PUZZLE_ANCHOR_V1" ++ challengeDigest.bytes ++ le64 nonce)

/-- Fill the scratch words from index `i` on; the accumulator runs along. -/
def fillScratch : Nat → Nat → UInt64 → List UInt64 × UInt64
  | 0, _, acc => ([], acc)
  | n + 1, i, acc =>
    let acc' := acc * 6364136223846793005 + (1442695040888963407 ^^^ UInt64.ofNat i)
    let (rest, last) := fillScratch n (i + 1) acc'
    (acc' :: rest, last)

def rotateLeft13 (x : UInt64) : UInt64 := (x <<< 13) ||| (x >>> 51)

def mixScratch : Nat → List UInt64 → UInt64 → UInt64
  | 0, _, acc => acc
  | n + 1, scratch, acc =>
    let idx := acc.toNat % scratch.length
    let acc' := rotateLeft13 acc ^^^ (scratch.getD idx 0 * 0x9E3779B97F4A7C15)
    mixScratch n (scratch.set idx acc') acc'

def memoryOutput (challengeDigest : Hash32) (nonce : UInt64) (p : PuzzleDifficultyProfile) : Hash32 :=
  let acc := UInt64.ofNat (leNat (challengeDigest.bytes.take 8)) ^^^ nonce
  let (scratch, acc) := fillScratch p.clamped.memWords 0 acc
  let acc := mixScratch p.clamped.iterations scratch acc
  C.sha256 (asciiBytes "IRIUM_POAWX_PUZZLE_MEM_V1" ++ challengeDigest.bytes ++ le64 nonce ++ le64 acc)

def parallelOutput (challengeDigest : Hash32) (nonce : UInt64) (p : PuzzleDifficultyProfile) : Hash32 :=
  C.sha256 (asciiBytes "IRIUM_POAWX_PUZZLE_PAR_V1" ++ challengeDigest.bytes ++ le64 nonce ++
    (List.range p.clamped.lanes).flatMap fun lane =>
      (C.sha256 (challengeDigest.bytes ++ le64 nonce ++ [UInt8.ofNat lane])).bytes)

def verificationDigest (c : PuzzleChallengeV1) : Hash32 :=
  C.sha256 (asciiBytes "IRIUM_POAWX_PUZZLE_VERIFY_V1" ++ c.challengeDigest.bytes ++ c.candidateDigest.bytes ++
    c.assignmentProofDigest.bytes)

def finalityDigest (c : PuzzleChallengeV1) : Hash32 :=
  C.sha256 (asciiBytes "IRIUM_POAWX_PUZZLE_FINALITY_V1" ++ c.challengeDigest.bytes ++ c.seed.bytes)

def checkThresholdWork (c : PuzzleChallengeV1) (s : PuzzleSolutionV1) (out : Hash32) : Except String Unit := do
  failIf (out ≠ s.proofDigest) "proof digest mismatch"
  failIf (leadingZeroBits out < c.profile.anchorBits) "below assigned-work threshold"

def verifySolution (c : PuzzleChallengeV1) (s : PuzzleSolutionV1) : Except String Unit := do
  failIf (s.mode ≠ c.mode.id) "wrong mode"
  match c.mode with
  | .verificationWork =>
    failIf (s.nonce ≠ 0 ∨ s.proofDigest ≠ verificationDigest C c) "bad verification reference"
  | .finalityWorkPlaceholder =>
    failIf (s.nonce ≠ 0 ∨ s.proofDigest ≠ finalityDigest C c) "bad finality reference"
  | .sha256dAnchor => checkThresholdWork c s (anchorOutput C c.challengeDigest s.nonce)
  | .randomMemory => checkThresholdWork c s (memoryOutput C c.challengeDigest s.nonce c.profile)
  | .parallelCompute => checkThresholdWork c s (parallelOutput C c.challengeDigest s.nonce c.profile)

def defaultProfile : PuzzleDifficultyProfile :=
  PuzzleDifficultyProfile.clamped { anchorBits := (E.number .puzzleBits).getD 8 }

def puzzleWorkActive (height : Nat) : Bool := poawxGate E .puzzleWork height
def puzzleWorkEnforced (height : Nat) : Bool := poawxEnforced E .puzzleWork .puzzleWork height

end IriumConsensus
