import IriumConsensus.SpendAuth

namespace IriumConsensus

open ByteCodec

variable {script : Bytes} {v w : OutputEncumbrance}

namespace OutputEncumbrance

def encode : OutputEncumbrance → Bytes
  | .p2pkh pkh => p2pkhScript pkh
  | .htlcV1 htlc => encodeHtlcv1Script htlc
  | .mpsoV1 mpso => encodeMpsoScript mpso
  | .htlcBtcSwapV1 swap => encodeHtlcBtcSwapV1Script swap
  | .htlcLtcSwapV1 swap => encodeHtlcLtcSwapV1Script swap
  | .swapOrder order => encodeSwapOrderScript order
  | .ltcSwapOrder order => encodeLtcSwapOrderScript order
  | .unknown => []

def Constrained : OutputEncumbrance → Prop
  | .mpsoV1 mpso => mpso.Constrained
  | .swapOrder order | .ltcSwapOrder order => order.Constrained
  | .unknown => False
  | _ => True

def tag : OutputEncumbrance → Option UInt8
  | .p2pkh _ => some 0x76
  | .htlcV1 _ => some htlcV1ScriptTag
  | .mpsoV1 _ => some mpsoV1Tag
  | .htlcBtcSwapV1 _ => some htlcBtcSwapV1Tag
  | .htlcLtcSwapV1 _ => some htlcLtcSwapV1Tag
  | .swapOrder _ => some swapOrderV1Tag
  | .ltcSwapOrder _ => some ltcSwapOrderV1Tag
  | .unknown => none

theorem head?_encode (v : OutputEncumbrance) : v.encode.head? = v.tag := by cases v <;> rfl

theorem ne_unknown_of_constrained (h : v.Constrained) : v ≠ .unknown := by
  rintro rfl
  exact h

end OutputEncumbrance

theorem parsedAs_iff (hv : v ≠ .unknown) : ParsedAs script v ↔ v.Constrained ∧ v.encode = script := by
  cases v with
  | p2pkh pkh =>
    refine ⟨fun h => ⟨trivial, p2pkhScript_of_parse h⟩, ?_⟩
    rintro ⟨-, rfl⟩
    exact parseP2pkhScript_p2pkhScript pkh
  | htlcV1 htlc =>
    refine ⟨fun h => ⟨trivial, encodeHtlcv1Script_of_parse h⟩, ?_⟩
    rintro ⟨-, rfl⟩
    exact parse_encodeHtlcv1Script htlc
  | mpsoV1 mpso =>
    refine ⟨parseMpsoScript_spec, ?_⟩
    rintro ⟨h, rfl⟩
    exact parse_encodeMpsoScript h
  | htlcBtcSwapV1 swap | htlcLtcSwapV1 swap =>
    refine ⟨fun h => ⟨trivial, encodeHtlcSwapScript_of_parse h⟩, ?_⟩
    rintro ⟨-, rfl⟩
    exact parse_encodeHtlcSwapScript _ swap
  | swapOrder order | ltcSwapOrder order =>
    refine ⟨fun h => ⟨parseOrderScript_constrained h, encodeOrderScript_of_parse h⟩, ?_⟩
    rintro ⟨h, rfl⟩
    exact parse_encodeOrderScript _ h
  | unknown => exact absurd rfl hv

theorem parsedAs_unique (hv : v ≠ .unknown) (hw : w ≠ .unknown) (h : ParsedAs script v) (h' : ParsedAs script w) :
    v = w := by
  have htag : v.tag = w.tag := by
    rw [← v.head?_encode, ← w.head?_encode, ((parsedAs_iff hv).mp h).2, ((parsedAs_iff hw).mp h').2]
  cases v <;> cases w <;>
    first
    | exact congrArg _ (Option.some.inj (h.symm.trans h'))
    | exact absurd rfl hv
    | simp [OutputEncumbrance.tag, htlcV1ScriptTag, mpsoV1Tag, htlcBtcSwapV1Tag, htlcLtcSwapV1Tag, swapOrderV1Tag,
        ltcSwapOrderV1Tag] at htag

theorem parseOutputEncumbrance_unknown (h : parseOutputEncumbrance script = .unknown) (hv : v ≠ .unknown) :
    ¬ ParsedAs script v := by
  unfold parseOutputEncumbrance at h
  repeat' (split at h; · simp at h)
  cases v <;> simp_all [ParsedAs]

theorem parseOutputEncumbrance_iff (hv : v ≠ .unknown) :
    parseOutputEncumbrance script = v ↔ ParsedAs script v := by
  constructor
  · rintro rfl
    exact parseOutputEncumbrance_parsedAs script
  · intro h
    have hknown : parseOutputEncumbrance script ≠ .unknown := fun hu => parseOutputEncumbrance_unknown hu hv h
    exact parsedAs_unique hknown hv (parseOutputEncumbrance_parsedAs script) h

/-- The seven parsers and encoders are inverse to each other, no script has two readings, and whoever spends an
output has signed for the very script of that output. -/
theorem script_codecs (script : Bytes) :
    (∀ v, v ≠ .unknown → ParsedAs script v → v.encode = script) ∧
    (∀ v : OutputEncumbrance, v.Constrained → ParsedAs v.encode v) ∧
    (∀ v w, v ≠ .unknown → w ≠ .unknown → ParsedAs script v → ParsedAs script w → v = w) ∧
    (∀ v, v ≠ .unknown → (parseOutputEncumbrance script = v ↔ ParsedAs script v)) ∧
    ∀ (C : Crypto) (tx : Transaction) (inputIndex : Nat) (txin : TxInput) (value : UInt64) (height : Nat)
      (flags : SpendFlags) (view : ConsensusView) (consumed consumed' : Consumed),
      verifyTransactionSignature C tx inputIndex txin ⟨value, script⟩ height flags view consumed = some consumed' →
      (parseOutputEncumbrance script).encode = script ∧
        SpendBranch C tx inputIndex script txin value height flags view consumed (parseOutputEncumbrance script) := by
  refine ⟨fun v hv h => ((parsedAs_iff hv).mp h).2, fun v h => ?_, fun v w hv hw => parsedAs_unique hv hw,
    fun v => parseOutputEncumbrance_iff, ?_⟩
  · exact (parsedAs_iff (OutputEncumbrance.ne_unknown_of_constrained h)).mpr ⟨h, rfl⟩
  · intro C tx inputIndex txin value height flags view consumed consumed' h
    have hknown : parseOutputEncumbrance script ≠ .unknown := by
      intro hu
      simp [verifyTransactionSignature, hu] at h
    exact ⟨((parsedAs_iff hknown).mp (parseOutputEncumbrance_parsedAs script)).2, verifyTransactionSignature_branch h⟩

end IriumConsensus
