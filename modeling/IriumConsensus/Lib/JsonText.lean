import Mathlib.Data.List.Sort
import IriumConsensus.Lib.Hex
import IriumConsensus.Lib.Json

namespace Json

open ByteCodec

def ofOption {α : Type} (f : α → Json) : Option α → Json
  | some a => f a
  | none => null

def optStr (x : Option String) : Json := ofOption str x

def optNat (x : Option Nat) : Json := ofOption nat x

mutual

def sortKeys : Json → Json
  | arr items => arr (sortItems items)
  | obj fields => obj ((sortFields fields).insertionSort fun a b => a.1.toList ≤ b.1.toList)
  | json => json

def sortItems : List Json → List Json
  | [] => []
  | json :: rest => sortKeys json :: sortItems rest

def sortFields : List (String × Json) → List (String × Json)
  | [] => []
  | (key, json) :: rest => (key, sortKeys json) :: sortFields rest

end

/-- A control character: a letter after a backslash if there is one for it, else its number. -/
def escapeControl (n : Nat) : Bytes :=
  match n with
  | 0x08 => [0x5c, 0x62]
  | 0x09 => [0x5c, 0x74]
  | 0x0a => [0x5c, 0x6e]
  | 0x0c => [0x5c, 0x66]
  | 0x0d => [0x5c, 0x72]
  | n => [0x5c, 0x75, 0x30, 0x30] ++ (hexByte (UInt8.ofNat n)).flatMap String.utf8EncodeChar

def escapeChar (c : Char) : Bytes :=
  if c.toNat < 0x20 then escapeControl c.toNat
  else if c.toNat = 0x22 ∨ c.toNat = 0x5c then [0x5c, UInt8.ofNat c.toNat]
  else if c.toNat < 0x80 then [UInt8.ofNat c.toNat]
  else String.utf8EncodeChar c

def quoted (s : String) : Bytes := 0x22 :: s.toList.flatMap escapeChar ++ [0x22]

def decimal (n : Nat) : Bytes := (Nat.toDigits 10 n).flatMap String.utf8EncodeChar

mutual

def compact : Json → Bytes
  | null => [0x6e, 0x75, 0x6c, 0x6c]
  | bool true => [0x74, 0x72, 0x75, 0x65]
  | bool false => [0x66, 0x61, 0x6c, 0x73, 0x65]
  | num n => if n < 0 then 0x2d :: decimal n.natAbs else decimal n.natAbs
  | str s => quoted s
  | arr items => 0x5b :: compactItems items ++ [0x5d]
  | obj fields => 0x7b :: compactFields fields ++ [0x7d]

def compactItems : List Json → Bytes
  | [] => []
  | [json] => compact json
  | json :: rest => compact json ++ 0x2c :: compactItems rest

def compactFields : List (String × Json) → Bytes
  | [] => []
  | [(key, json)] => quoted key ++ 0x3a :: compact json
  | (key, json) :: rest => quoted key ++ 0x3a :: compact json ++ 0x2c :: compactFields rest

end

/-- The text that is hashed and signed: keys in order, no blanks. -/
def canonicalBytes (json : Json) : Bytes := compact (sortKeys json)

example : canonicalBytes (obj [("b", arr [num 1, null]), ("a", str "x\"")]) =
    [0x7b, 0x22, 0x61, 0x22, 0x3a, 0x22, 0x78, 0x5c, 0x22, 0x22, 0x2c, 0x22, 0x62, 0x22, 0x3a, 0x5b, 0x31, 0x2c,
      0x6e, 0x75, 0x6c, 0x6c, 0x5d, 0x7d] := by
  decide +kernel

end Json
