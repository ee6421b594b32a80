import Mathlib.Algebra.Group.Int.Defs
import Mathlib.Algebra.Group.Nat.Defs

/-- A parsed JSON text; a number that is no integer counts as `null`. -/
inductive Json where
  | null
  | bool (b : Bool)
  | num (n : Int)
  | str (s : String)
  | arr (items : List Json)
  | obj (fields : List (String × Json))

namespace Json

def get (key : String) : Json → Option Json
  | obj fields => fields.lookup key
  | _ => none

def asStr : Json → Option String
  | str s => some s
  | _ => none

def asU64 : Json → Option Nat
  | num n => if 0 ≤ n ∧ n < 2 ^ 64 then some n.toNat else none
  | _ => none

def asArray : Json → Option (List Json)
  | arr items => some items
  | _ => none

def nat (n : Nat) : Json := num n

def optionField (key : String) (x : Option Json) : List (String × Json) :=
  match x with
  | some v => [(key, v)]
  | none => []

theorem asU64_nat {n : Nat} (h : n < 2 ^ 64) : asU64 (nat n) = some n := by
  have hrange : (0 : Int) ≤ n ∧ (n : Int) < 2 ^ 64 := by omega
  rw [nat, asU64, if_pos hrange]
  rfl

theorem lookup_optionField (key : String) (x : Option Json) : (optionField key x).lookup key = x := by
  cases x with
  | none => rfl
  | some v => simp [optionField]

theorem lookup_optionField_ne {key key' : String} (h : key ≠ key') (x : Option Json) :
    (optionField key' x).lookup key = none := by
  cases x with
  | none => rfl
  | some v => simp [optionField, List.lookup_cons, beq_eq_false_iff_ne.mpr h]

end Json
