import IriumConsensus.WellFormed

namespace IriumConsensus

open Stateful

variable {C : Crypto} {E : NodeEnv} {A : Ambient}

namespace ChainState

variable {s : ChainState} {base : List Block} {f n : Nat}

/-- The chain still has `base` at its bottom and `n` blocks above it, and the watermark has not
fallen below `f`. -/
structure Kept (base : List Block) (f n : Nat) (s : ChainState) : Prop where
  height : s.height = s.chain.length
  bottom : base <+: s.chain
  above : base.length + n ≤ s.chain.length
  final : f ≤ s.finalizedHeight

theorem Kept.fewer {m : Nat} (h : Kept base f n s) (hm : m ≤ n) : Kept base f m s :=
  ⟨h.height, h.bottom, by have := h.above; omega, h.final⟩

theorem Kept.getElem? (h : Kept base f n s) {i : Nat} (hi : i < base.length) : s.chain[i]? = base[i]? := by
  obtain ⟨rest, hrest⟩ := h.bottom
  rw [← hrest, List.getElem?_append_left hi]

theorem Kept.accept {b : Block} {undo : BlockUndo} {L : Ledger} (h : Kept base f n s) :
    Kept base f (n + 1) (acceptBlock C E (s.setLedger L) b undo) := by
  obtain ⟨poawx, index, finalized, heq, hfin⟩ := acceptBlock_eq (C := C) (E := E) (s.setLedger L) b undo
  have habove := h.above
  have hlow : s.finalizedHeight ≤ finalized := by
    rcases hfin with rfl | rfl
    · exact le_rfl
    · exact le_max_left _ _
  rw [heq]
  refine ⟨?_, h.bottom.trans (List.prefix_append s.chain [b]), ?_, h.final.trans hlow⟩
  · simp [pushBlock, setLedger, h.height]
  · simp only [pushBlock, setLedger, List.length_append, List.length_singleton]
    omega

theorem connectBlock_kept (b : Block) :
    Triple (Kept base f n) (connectBlock C E A b) (fun _ => Kept base f (n + 1)) (Kept base f n) := by
  intro s h
  rcases hr : connectBlock C E A b s with ⟨e | u, s'⟩
  · rcases connectBlock_error hr with ⟨-, rfl⟩ | ⟨-, L, rfl, -⟩
    · exact h
    · exact ⟨h.height, h.bottom, h.above, h.final⟩
  · obtain ⟨-, undo, L, -, -, rfl⟩ := connectBlock_eq_ok.mp hr
    exact h.accept

section

variable (hf : f ≤ base.length - 2)

include hf

theorem Kept.pop {tip : Block} {undo : BlockUndo} (h : Kept base f (n + 1) s) :
    Kept base f n (popBlock C E s tip undo) := by
  obtain ⟨rest, hrest⟩ := h.bottom
  have habove := h.above
  have hfinal := h.final
  have hlen : s.chain.dropLast.length = s.chain.length - 1 := List.length_dropLast
  have hne : rest ≠ [] := by
    rintro rfl
    rw [List.append_nil] at hrest
    rw [← hrest] at habove
    omega
  refine ⟨rfl, ⟨rest.dropLast, ?_⟩, ?_, ?_⟩
  · rw [← List.dropLast_append_of_ne_nil hne, hrest]
    rfl
  · simp only [popBlock, hlen]
    omega
  · simp only [popBlock, hlen]
    omega

theorem disconnectTipBlock_kept :
    Triple (Kept base f (n + 1)) (disconnectTipBlock C E) (fun _ => Kept base f n) (Kept base f n) := by
  intro s h
  rcases hr : disconnectTipBlock C E s with ⟨e | tip, s'⟩
  · rw [disconnectTipBlock_error hr]
    exact h.fewer (Nat.le_succ n)
  · obtain ⟨undo, -, rfl⟩ := disconnectTipBlock_eq_ok.mp hr
    exact h.pop hf

theorem disconnectTo_kept {ancestorHeight : Nat} (ha : base.length ≤ ancestorHeight + 1) (fuel : Nat) :
    Triple (Kept base f 0) (disconnectTo C E ancestorHeight fuel) (fun _ => Kept base f 0) (Kept base f 0) := by
  induction fuel with
  | zero => exact .pure fun _ h => h
  | succ fuel ih =>
    refine .read_bind fun s h => ?_
    split
    next => exact .pure fun _ hs => hs ▸ h
    next habove =>
      have hone : Kept base f 1 s := by
        have hheight := h.height
        refine ⟨hheight, h.bottom, ?_, h.final⟩
        unfold tipHeight at habove
        omega
      exact .bind ((disconnectTipBlock_kept hf).weaken_pre fun _ hs => hs ▸ hone) fun _ =>
        .bind ih fun _ => .pure fun _ h => h

theorem disconnectTips_kept (n : Nat) :
    Triple (Kept base f n) (disconnectTips C E n) (fun _ => Kept base f 0) (Kept base f 0) := by
  induction n with
  | zero => exact .pure fun _ h => h
  | succ n ih => exact .attempt_bind (disconnectTipBlock_kept hf) (fun _ => ih) fun _ => ih

omit hf in
theorem reconnect_kept (bs : List Block) :
    Triple (Kept base f 0) (reconnect C E A bs) (fun _ => Kept base f 0) (Kept base f 0) := by
  induction bs with
  | nil => exact .pure fun _ h => h
  | cons b bs ih =>
    exact .attempt_bind (connectBlock_kept b) (fun _ => ih.weaken_pre fun _ h => h.fewer (Nat.zero_le _))
      fun _ => ih

theorem connectBranch_kept (disconnected branch : List Block) (connected : Nat) :
    Triple (Kept base f connected) (connectBranch C E A disconnected branch connected)
      (fun _ => Kept base f 0) (Kept base f 0) := by
  induction branch generalizing connected with
  | nil => exact .pure fun _ h => h.fewer (Nat.zero_le _)
  | cons b rest ih =>
    refine .attempt_bind (connectBlock_kept b) (fun _ => ih (connected + 1)) fun e => ?_
    exact .bind (disconnectTips_kept hf connected) fun _ => .bind (reconnect_kept _) fun _ => .fail (fun _ h => h) _

theorem switchBranch_kept {ancestorHeight : Nat} (ha : base.length ≤ ancestorHeight + 1) (branch : List Block) :
    Triple (Kept base f 0) (switchBranch C E A ancestorHeight branch) (fun _ => Kept base f 0)
      (Kept base f 0) := by
  refine .read_bind fun s h => ?_
  refine .bind ((disconnectTo_kept hf ha _).weaken_pre fun _ hs => hs ▸ h) fun disconnected => ?_
  refine .bind (connectBranch_kept hf disconnected branch 0) fun _ => ?_
  exact fun t ht => ⟨ht.height, ht.bottom, ht.above, ht.final⟩

end

end ChainState

end IriumConsensus
