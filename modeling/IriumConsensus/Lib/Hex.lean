import IriumConsensus.Lib.Bytes

namespace ByteCodec

def hexDigit (n : Nat) : Char := if n < 10 then Char.ofNat (48 + n) else Char.ofNat (87 + n)

def hexValue (c : Char) : Option Nat :=
  if '0' ≤ c ∧ c ≤ '9' then some (c.toNat - 48)
  else if 'a' ≤ c ∧ c ≤ 'f' then some (c.toNat - 87)
  else if 'A' ≤ c ∧ c ≤ 'F' then some (c.toNat - 55)
  else none

def hexByte (b : UInt8) : List Char := [hexDigit (b.toNat / 16), hexDigit (b.toNat % 16)]

def encodeHex (bs : Bytes) : String := String.ofList (bs.flatMap hexByte)

def decodeHexChars : List Char → Option Bytes
  | [] => some []
  | [_] => none
  | hi :: lo :: rest => do
    let h ← hexValue hi
    let l ← hexValue lo
    let bs ← decodeHexChars rest
    return UInt8.ofNat (16 * h + l) :: bs

def decodeHex (s : String) : Option Bytes := decodeHexChars s.toList

theorem hexValue_hexDigit {n : Nat} (h : n < 16) : hexValue (hexDigit n) = some n := by
  have all : ∀ m : Fin 16, hexValue (hexDigit m) = some m.val := by decide
  exact all ⟨n, h⟩

theorem decodeHexChars_encode (bs : Bytes) : decodeHexChars (bs.flatMap hexByte) = some bs := by
  induction bs with
  | nil => rfl
  | cons b bs ih =>
    have hb : b.toNat < 256 := b.toNat_lt
    have hhi := hexValue_hexDigit (show b.toNat / 16 < 16 by omega)
    have hlo := hexValue_hexDigit (show b.toNat % 16 < 16 by omega)
    have hval : 16 * (b.toNat / 16) + b.toNat % 16 = b.toNat := by omega
    simp only [List.flatMap_cons, hexByte, List.cons_append, List.nil_append, decodeHexChars, hhi, hlo, ih,
      Option.bind_eq_bind, Option.bind_some, hval, UInt8.ofNat_toNat]
    rfl

theorem decodeHex_encodeHex (bs : Bytes) : decodeHex (encodeHex bs) = some bs := by
  simp [decodeHex, encodeHex, decodeHexChars_encode]

end ByteCodec
