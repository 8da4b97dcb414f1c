import ChessEval.Number.Decimal

/-!
# Writing numbers

A number is written with the fewest decimal digits that read back as the same number, and of those
with the digits nearest to it.
-/

namespace ChessEval.Number

def scaledQuotient (a : Nat) (e k : Int) : Nat × Nat :=
  (a * Nat.pow 2 e.toNat * Nat.pow 10 (-k).toNat, Nat.pow 2 (-e).toNat * Nat.pow 10 k.toNat)

/-- The exponent `k` with `10 ^ k ≤ n / d < 10 ^ (k + 1)`, for positive `n` and `d`. -/
def floorLog10 (n d : Nat) : Int :=
  let k : Int := decimalLength n - decimalLength d
  let below := if 0 ≤ k then n < d * Nat.pow 10 k.toNat else n * Nat.pow 10 (-k).toNat < d
  if below then k - 1 else k

/-- Of the multiples of `10 ^ k`, the one that reads back as `m * 2 ^ e` and is nearest to it, as a
multiplier; of two that are equally near, the upper. A multiple reads back when it lies between the
midpoints to the neighbouring numbers, and a midpoint itself reads back when `m` is even. -/
def multiple? (m : Nat) (e k : Int) : Option Nat :=
  let (n, d) := scaledQuotient (4 * m) (e - 2) k
  let unit := (scaledQuotient 1 (e - 2) k).1
  let lowGap := if m = Nat.pow 2 52 ∧ minExponent < e then unit else 2 * unit
  let highGap := 2 * unit
  let low := n / d
  let high := low + 1
  let lowFits := if m % 2 = 0 then n ≤ low * d + lowGap else n < low * d + lowGap
  let highFits := if m % 2 = 0 then high * d ≤ n + highGap else high * d < n + highGap
  if highFits ∧ (¬lowFits ∨ d ≤ 2 * (n % d)) then some high
  else if lowFits then some low
  else none

/-- The first of the grids `k, k - 1, …` that has a multiple which reads back, with that multiple. -/
def firstMultiple (m : Nat) (e : Int) : Nat → Int → Nat × Int
  | 0, k => (m, k)
  | grids + 1, k =>
    match multiple? m e k with
    | some digits => (digits, k)
    | none => firstMultiple m e grids (k - 1)

def dropZeros : Nat → Nat × Int → Nat × Int
  | 0, decimal => decimal
  | steps + 1, (digits, k) =>
    if digits % 10 = 0 ∧ digits ≠ 0 then dropZeros steps (digits / 10, k + 1) else (digits, k)

/-- The shortest decimal `digits * 10 ^ k` that reads back as the positive number `m * 2 ^ e`.
Seventeen digits are always enough. -/
def shortest (m : Nat) (e : Int) : Nat × Int :=
  let (n, d) := scaledQuotient m e 0
  dropZeros 18 (firstMultiple m e 17 (floorLog10 n d))

def zeros (n : Nat) : String :=
  String.ofList (List.replicate n '0')

/-- The decimal `digits * 10 ^ k` written out with a point where one is needed. -/
def positional (digits : Nat) (k : Int) : String :=
  let text := toString digits
  if 0 ≤ k then text ++ zeros k.toNat
  else
    let places := (-k).toNat
    let padded := if text.length ≤ places then zeros (places + 1 - text.length) ++ text else text
    let whole := padded.toList.take (padded.length - places)
    let rest := padded.toList.drop (padded.length - places)
    String.ofList (whole ++ ['.'] ++ rest)

def scientific (digits : Nat) (k : Int) : String :=
  let text := (toString digits).toList
  let exponent := toString (k + (text.length - 1 : Nat))
  match text with
  | first :: [] => String.ofList [first] ++ "e" ++ exponent
  | first :: rest => String.ofList ([first, '.'] ++ rest) ++ "e" ++ exponent
  | [] => "e" ++ exponent

def withSign (negative : Bool) (text : String) : String :=
  if negative then "-" ++ text else text

def plain : Number → String
  | .undefined => "NaN"
  | .infinite negative => withSign negative "inf"
  | .finite negative m e =>
    if m = 0 then withSign negative "0"
    else
      let (digits, k) := shortest m e
      withSign negative (positional digits k)

/-- A number as tree dumps show it: integers end in `.0`, and there is an exponent from `1e16` on
and below `1e-4`. -/
def dumped : Number → String
  | .undefined => "NaN"
  | .infinite negative => withSign negative "inf"
  | .finite negative m e =>
    if m = 0 then withSign negative "0.0"
    else
      let (digits, k) := shortest m e
      let magnitude := k + decimalLength digits
      let text :=
        if 16 < magnitude ∨ magnitude < -3 then scientific digits k
        else if 0 ≤ k then positional digits k ++ ".0"
        else positional digits k
      withSign negative text

/-- A number as the generated program spells it: an integer below `2 ^ 63` in magnitude is written
exactly, anything else in full. -/
def code (x : Number) : String :=
  match x.integer? with
  | some (negative, n) =>
    if n = 0 then "0"
    else if n < Nat.pow 2 63 then withSign negative (toString n)
    else x.plain
  | none => x.plain

end ChessEval.Number
