/-!
# Numbers

A number of the language is a binary floating-point value with 53 bits of precision. It is held as
an exact value, so that reading and writing it are plain arithmetic on natural numbers.
-/

namespace ChessEval

/-- A floating-point number. `finite negative m e` has the value `m * 2 ^ e` or its opposite, where
`m < 2 ^ 53`, `-1074 ≤ e`, and `2 ^ 52 ≤ m` unless `e = -1074`. -/
inductive Number where
  | finite (negative : Bool) (significand : Nat) (exponent : Int)
  | infinite (negative : Bool)
  | undefined
deriving DecidableEq, Repr, Inhabited

namespace Number

/-- The smallest exponent, at which the significand may have fewer than 53 bits. -/
def minExponent : Int := -1074

def maxExponent : Int := 971

def one : Number := .finite false (Nat.pow 2 52) (-52)

def opposite : Number → Number
  | .finite negative m e => .finite (!negative) m e
  | .infinite negative => .infinite (!negative)
  | .undefined => .undefined

/-- The integer that a number equals, with the sign apart, if it equals one. -/
def integer? : Number → Option (Bool × Nat)
  | .finite negative m e =>
    if 0 ≤ e then some (negative, m * Nat.pow 2 e.toNat)
    else if m % Nat.pow 2 (-e).toNat = 0 then some (negative, m / Nat.pow 2 (-e).toNat)
    else none
  | _ => none

def isInteger (x : Number) : Bool :=
  x.integer?.isSome

/-- The quotient rounded to the nearest natural number, a half to the even neighbour. -/
def roundDiv (n d : Nat) : Nat :=
  let q := n / d
  let twice := 2 * (n % d)
  if twice < d then q
  else if d < twice then q + 1
  else if q % 2 = 0 then q
  else q + 1

def floorLog2 (n d : Nat) : Int :=
  let k : Int := n.log2 - d.log2
  let below := if 0 ≤ k then n < d * Nat.pow 2 k.toNat else n * Nat.pow 2 (-k).toNat < d
  if below then k - 1 else k

def ofQuotient (negative : Bool) (n d : Nat) : Number :=
  if n = 0 then .finite negative 0 minExponent
  else
    let e := max (floorLog2 n d - 52) minExponent
    let m := if 0 ≤ e then roundDiv n (d * Nat.pow 2 e.toNat) else roundDiv (n * Nat.pow 2 (-e).toNat) d
    let (m, e) := if m = Nat.pow 2 53 then (Nat.pow 2 52, e + 1) else (m, e)
    if maxExponent < e then .infinite negative else .finite negative m e

end Number

end ChessEval
