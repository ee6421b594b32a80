import Mathlib.Data.List.Basic
import IriumConsensus.Lib.Hex

namespace ByteCodec

def digitOf (radix : Nat) (c : Char) : Option Nat := (hexValue c).filter (· < radix)

def parseDigits (radix bound : Nat) : List Char → Nat → Except String Nat
  | [], acc => .ok acc
  | c :: rest, acc =>
    match digitOf radix c with
    | none => .error "invalid digit found in string"
    | some d =>
      if bound ≤ acc * radix + d then .error "number too large to fit in target type"
      else parseDigits radix bound rest (acc * radix + d)

def fromStrRadix (radix bound : Nat) (s : List Char) : Except String Nat :=
  match s with
  | [] => .error "cannot parse integer from empty string"
  | ['+'] => .error "invalid digit found in string"
  | '+' :: digits => parseDigits radix bound digits 0
  | digits => parseDigits radix bound digits 0

def utf8 (s : String) : Bytes := s.toList.flatMap String.utf8EncodeChar

/-- The number that one to four bytes stand for, whether or not they are well formed. -/
def utf8Code : Bytes → Nat
  | [a] => a.toNat
  | [a, b] => a.toNat % 32 * 64 + b.toNat % 64
  | [a, b, c] => (a.toNat % 16 * 64 + b.toNat % 64) * 64 + c.toNat % 64
  | [a, b, c, d] => ((a.toNat % 8 * 64 + b.toNat % 64) * 64 + c.toNat % 64) * 64 + d.toNat % 64
  | _ => 0

def utf8Head (bs : Bytes) : Option (Char × Bytes) :=
  [1, 2, 3, 4].findSome? fun n =>
    let c := Char.ofNat (utf8Code (bs.take n))
    if String.utf8EncodeChar c = bs.take n then some (c, bs.drop n) else none

/-- The characters of bytes in UTF-8, at most `fuel` of them. -/
def utf8Chars : Nat → Bytes → Option (List Char)
  | _, [] => some []
  | 0, _ :: _ => none
  | fuel + 1, bs => do
    let (c, rest) ← utf8Head bs
    let cs ← utf8Chars fuel rest
    return c :: cs

def fromUtf8 (bs : Bytes) : Option (List Char) := utf8Chars bs.length bs

def isWhiteSpace (c : Char) : Bool :=
  let n := c.toNat
  (9 ≤ n && n ≤ 13) || n == 0x20 || n == 0x85 || n == 0xa0 || n == 0x1680 || (0x2000 ≤ n && n ≤ 0x200a) ||
    n == 0x2028 || n == 0x2029 || n == 0x202f || n == 0x205f || n == 0x3000

def trimText (s : String) : String :=
  String.ofList ((s.toList.dropWhile isWhiteSpace).reverse.dropWhile isWhiteSpace).reverse

def isBlank (s : String) : Bool := s.toList.all isWhiteSpace

def asciiLower (s : String) : String :=
  String.ofList (s.toList.map fun c => if 'A' ≤ c ∧ c ≤ 'Z' then Char.ofNat (c.toNat + 32) else c)

def eqIgnoreAsciiCase (s t : String) : Bool := asciiLower s == asciiLower t

def hexError (s : String) : String :=
  if s.length % 2 = 1 then "Odd number of digits"
  else
    match s.toList.findIdx? fun c => (hexValue c).isNone with
    | some i => "Invalid character " ++ (s.toList.getD i ' ').quote ++ " at position " ++ toString i
    | none => "Invalid string length"

def hexDecode (s : String) : Except String Bytes :=
  match decodeHex s with
  | some bs => .ok bs
  | none => .error (hexError s)

theorem hexDecode_encodeHex (bs : Bytes) : hexDecode (encodeHex bs) = .ok bs := by
  rw [hexDecode, decodeHex_encodeHex]

variable {radix bound : Nat} {cs : List Char}

theorem le_foldl_digits (hr : 0 < radix) (value : Char → Nat) (cs : List Char) (acc : Nat) :
    acc ≤ cs.foldl (fun a c => a * radix + value c) acc := by
  induction cs generalizing acc with
  | nil => exact le_rfl
  | cons c cs ih =>
    have hstep : acc ≤ acc * radix + value c := (Nat.le_mul_of_pos_right acc hr).trans (Nat.le_add_right _ _)
    exact hstep.trans (ih _)

theorem parseDigits_eq (hr : 0 < radix) (value : Char → Nat) {acc : Nat}
    (hcs : ∀ c ∈ cs, digitOf radix c = some (value c)) (hb : cs.foldl (fun a c => a * radix + value c) acc < bound) :
    parseDigits radix bound cs acc = .ok (cs.foldl (fun a c => a * radix + value c) acc) := by
  induction cs generalizing acc with
  | nil => rfl
  | cons c cs ih =>
    have hlt : ¬bound ≤ acc * radix + value c := by
      have hle := le_foldl_digits hr value cs (acc * radix + value c)
      rw [List.foldl_cons] at hb
      omega
    rw [parseDigits, hcs c List.mem_cons_self]
    dsimp only
    rw [if_neg hlt]
    exact ih (fun c' hc' => hcs c' (List.mem_cons_of_mem c hc')) hb

theorem fromStrRadix_eq (hr : 0 < radix) (value : Char → Nat) (hne : cs ≠ [])
    (hcs : ∀ c ∈ cs, digitOf radix c = some (value c)) (hb : cs.foldl (fun a c => a * radix + value c) 0 < bound) :
    fromStrRadix radix bound cs = .ok (cs.foldl (fun a c => a * radix + value c) 0) := by
  have hplus : digitOf radix '+' = none := by simp [digitOf, show hexValue '+' = none by decide]
  have hparse := parseDigits_eq hr value hcs hb
  unfold fromStrRadix
  split
  next => exact absurd rfl hne
  next => exact absurd (hcs '+' List.mem_cons_self) (by simp [hplus])
  next digits _ => exact absurd (hcs '+' List.mem_cons_self) (by simp [hplus])
  next => exact hparse

theorem fromStrRadix_toDigits {n : Nat} (h : n < bound) :
    fromStrRadix 10 bound (Nat.toDigits 10 n) = .ok n := by
  have hvalue : (Nat.toDigits 10 n).foldl (fun a c => a * 10 + (c.toNat - 48)) 0 = n := by
    have hten : Nat.ofDigitChars 10 (Nat.toDigits 10 n) 0 = n := Nat.ofDigitChars_ten_toDigits
    simp only [Nat.ofDigitChars, Nat.mul_comm 10] at hten
    exact hten
  have hdigits : ∀ c ∈ Nat.toDigits 10 n, digitOf 10 c = some (c.toNat - 48) := by
    intro c hc
    have hd := Nat.isDigit_of_mem_toDigits (by decide) (by decide) hc
    simp only [Char.isDigit, Bool.and_eq_true, decide_eq_true_eq] at hd
    have hrange : '0' ≤ c ∧ c ≤ '9' := hd
    have hlt : c.toNat ≤ 57 := hd.2
    simp only [digitOf, hexValue, if_pos hrange, Option.filter_some, decide_eq_true_eq]
    rw [if_pos (by omega)]
  have hne : Nat.toDigits 10 n ≠ [] := by
    intro hnil
    have := Nat.length_toDigits_pos (b := 10) (n := n)
    simp [hnil] at this
  rw [← hvalue] at h
  have hparse := fromStrRadix_eq (by decide) _ hne hdigits h
  rwa [hvalue] at hparse

theorem fromStrRadix_hex {bs : Bytes} (hne : bs ≠ []) (h : beNat bs < bound) :
    fromStrRadix 16 bound (bs.flatMap hexByte) = .ok (beNat bs) := by
  have hdigit : ∀ n < 16, digitOf 16 (hexDigit n) = some ((hexValue (hexDigit n)).getD 0) := by
    intro n hn
    simp [digitOf, hexValue_hexDigit hn, hn]
  have hvalue : ∀ acc, (bs.flatMap hexByte).foldl (fun a c => a * 16 + (hexValue c).getD 0) acc =
      bs.foldl (fun a b => a * 256 + b.toNat) acc := by
    intro acc
    clear hne h
    induction bs generalizing acc with
    | nil => rfl
    | cons b bs ih =>
      have hb : b.toNat < 256 := b.toNat_lt
      simp only [List.flatMap_cons, hexByte, List.cons_append, List.nil_append, List.foldl_cons,
        hexValue_hexDigit (show b.toNat / 16 < 16 by omega), hexValue_hexDigit (show b.toNat % 16 < 16 by omega),
        Option.getD_some, ih]
      congr 1
      omega
  have hdigits : ∀ c ∈ bs.flatMap hexByte, digitOf 16 c = some ((hexValue c).getD 0) := by
    intro c hc
    obtain ⟨b, -, hc⟩ := List.mem_flatMap.mp hc
    have hb : b.toNat < 256 := b.toNat_lt
    simp only [hexByte, List.mem_cons, List.not_mem_nil, or_false] at hc
    rcases hc with rfl | rfl
    · exact hdigit _ (by omega)
    · exact hdigit _ (by omega)
  have hne' : bs.flatMap hexByte ≠ [] := by
    cases bs with
    | nil => exact absurd rfl hne
    | cons b bs => simp [hexByte]
  have hbound : (bs.flatMap hexByte).foldl (fun a c => a * 16 + (hexValue c).getD 0) 0 < bound := by
    rw [hvalue]
    exact h
  have hparse := fromStrRadix_eq (by decide) _ hne' hdigits hbound
  rwa [hvalue] at hparse

end ByteCodec
