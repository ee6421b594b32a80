import IriumConsensus.AuxPowBinding
import IriumConsensus.Block
import IriumConsensus.Lib.MerkleTree

namespace IriumConsensus

open ByteCodec MerkleTree

variable {C : Crypto}

theorem merkleLevel_eq (xs : List Hash32) : merkleLevel C xs = level (merkleNode C) xs := by
  fun_induction merkleLevel C xs with
  | case1 => rfl
  | case2 a => rfl
  | case3 a b rest ih => rw [ih]; rfl

theorem merkleReduce_eq {fuel : Nat} {xs : List Hash32} (hne : xs ≠ []) (hfuel : xs.length ≤ fuel) :
    (level (merkleNode C))^[Nat.clog 2 xs.length] xs = [merkleReduce C fuel xs] := by
  have hone {ys : List Hash32} (h : ys.length = 1) : ys = [ys.headD (ByteVec.zero 32)] := by
    obtain ⟨y, rfl⟩ := List.length_eq_one_iff.mp h
    rfl
  have hpos := List.length_pos_iff.mpr hne
  induction fuel generalizing xs with
  | zero => omega
  | succ fuel ih =>
    rw [merkleReduce]
    split_ifs with hle
    · have hlen : xs.length = 1 := by omega
      rw [hlen, Nat.clog_one_right]
      exact hone hlen
    · have hlen : (merkleLevel C xs).length = (xs.length + 1) / 2 := by rw [merkleLevel_eq, level_length]
      have hup := ih (show merkleLevel C xs ≠ [] by rw [← List.length_pos_iff]; omega) (by omega) (by omega)
      rw [clog_level (by omega), Function.iterate_succ_apply, ← merkleLevel_eq, ← hlen]
      exact hup

end IriumConsensus
