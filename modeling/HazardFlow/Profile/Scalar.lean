import HazardFlow.Word

/-!
# Packed scalars

A parameter of a profile is kept in 64 bits whatever its kind. Integers are taken modulo a word,
floating-point numbers by their bits, after widening those of single precision.
-/

namespace HazardFlow

/-- The double-precision bits of the number whose single-precision bits are given. Widening is
exact; a signalling NaN becomes quiet and keeps its sign and payload. -/
def widenSingle (single : Nat) : Nat :=
  let sign := (single >>> 31 % 2) <<< 63
  let exponent := single >>> 23 % 1 <<< 8
  let fraction := single % 1 <<< 23
  if exponent = 255 then
    if fraction = 0 then sign + 2047 <<< 52
    else sign + 2047 <<< 52 + 1 <<< 51 + (fraction % 1 <<< 22) <<< 29
  else if exponent = 0 then
    if fraction = 0 then sign
    else
      let leading := fraction.log2
      sign + (leading + 874) <<< 52 + (fraction - 1 <<< leading) <<< (52 - leading)
  else sign + (exponent + 896) <<< 52 + fraction <<< 29

/-- A scalar of one of the kinds that a profile takes. -/
inductive Scalar where
  /-- An integer, signed or not, of any width. -/
  | integer (value : Int)
  /-- A double-precision number, by its bits. -/
  | double (bits : Nat)
  /-- A single-precision number, by its bits. -/
  | single (bits : Nat)
  deriving DecidableEq, Repr

/-- The 64 bits in which a scalar is kept. -/
def Scalar.pack : Scalar → UInt64
  | .integer value => UInt64.ofNat (asWord value)
  | .double bits => UInt64.ofNat bits
  | .single bits => UInt64.ofNat (widenSingle bits)

end HazardFlow
