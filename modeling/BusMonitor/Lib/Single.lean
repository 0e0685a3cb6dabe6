import Mathlib.Algebra.Group.Int.Defs
import Mathlib.Algebra.Group.Nat.Defs
import Mathlib.Data.Nat.Log
/-!
# Single-precision numbers

A single-precision number is its 32 bits. Its value is read in units of
`2 ^ (-149)`, the smallest positive subnormal, in which every finite
number is an integer; comparing it with a natural number is then exact.
An infinity is read as the number its bits would stand for, which lies
beyond every finite one, and a NaN has no value and fails every
comparison.
-/


/-- A number in the IEEE 754 single-precision format. -/
structure Single where
  /-- Sign, eight bits of exponent, twenty-three of fraction. -/
  bits : UInt32
  deriving DecidableEq, Repr, Inhabited

namespace Single

/-- The sign bit. -/
def negative (x : Single) : Bool := 2 ^ 31 ≤ x.bits.toNat

/-- The biased exponent. -/
def exponent (x : Single) : Nat := x.bits.toNat / 2 ^ 23 % 256

/-- The fraction field. -/
def fraction (x : Single) : Nat := x.bits.toNat % 2 ^ 23

/-- The magnitude in units of `2 ^ (-149)`. -/
def magnitude (x : Single) : Nat :=
  if x.exponent = 0 then x.fraction else (2 ^ 23 + x.fraction) * 2 ^ (x.exponent - 1)

/-- The value in units of `2 ^ (-149)`; a NaN has none. -/
def units (x : Single) : Option Int :=
  if x.exponent = 255 ∧ x.fraction ≠ 0 then none
  else if x.negative then some (-(x.magnitude : Int)) else some x.magnitude

/-- `x == n`, the integer converted exactly. -/
def eqNat (x : Single) (n : Nat) : Bool :=
  match x.units with
  | none => false
  | some v => v = n * 2 ^ 149

/-- `x >= n`. -/
def geNat (x : Single) (n : Nat) : Bool :=
  match x.units with
  | none => false
  | some v => n * 2 ^ 149 ≤ v

/-- `x <= n`. -/
def leNat (x : Single) (n : Nat) : Bool :=
  match x.units with
  | none => false
  | some v => v ≤ n * 2 ^ 149

/-- A byte converted to single precision, exactly. -/
def ofByte (b : UInt8) : Single :=
  if b = 0 then ⟨0⟩
  else
    let e := Nat.log2 b.toNat
    ⟨UInt32.ofNat ((127 + e) * 2 ^ 23 + (b.toNat - 2 ^ e) * 2 ^ (23 - e))⟩

example : (ofByte 1).eqNat 1 = true ∧ (ofByte 200).eqNat 200 = true := by decide +kernel

end Single
