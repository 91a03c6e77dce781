import LuaDump.Binary64

/-! # Shortest decimals

The decimal of a finite number is the one with the fewest digits that still lies
in the interval of reals rounding to that number; among those of equal length it
is the nearest, and a tie goes to the even digit. Everything is decided by exact
comparison of naturals.
-/

namespace LuaDump

/-- The decimal number `coefficient * 10 ^ exponent`. -/
structure Decimal where
  coefficient : Nat
  exponent : Int
deriving DecidableEq, Repr

namespace Decimal

/-- How many decimal digits a natural number has; zero has none. -/
def digitCount (n : Nat) : Nat :=
  if n = 0 then 0 else (Nat.toDigits 10 n).length

/-- The positive number `significand * 2 ^ scale` together with the interval of
reals that round to it. The three points are measured in quarters of a unit in
the last place. -/
structure Rounding where
  significand : Nat
  scale : Int

namespace Rounding

/-- The number itself, in quarter units. -/
def point (r : Rounding) : Nat :=
  4 * r.significand

/-- The lower end: half a unit below, or a quarter where the spacing halves. -/
def low (r : Rounding) : Nat :=
  if r.significand = Binary64.unitWeight ∧ -1074 < r.scale then r.point - 1 else r.point - 2

/-- The upper end: half a unit above. -/
def high (r : Rounding) : Nat :=
  r.point + 2

/-- The factor of a grid point when it is compared with quarter units. -/
def gridFactor (r : Rounding) (grid : Int) : Nat :=
  Nat.pow 10 grid.toNat * Nat.pow 2 (2 - r.scale).toNat

/-- The factor of a count of quarter units when it is compared with grid points. -/
def unitFactor (r : Rounding) (grid : Int) : Nat :=
  Nat.pow 10 (-grid).toNat * Nat.pow 2 (r.scale - 2).toNat

/-- Whether `x * 10 ^ grid` rounds to the number; the ends belong to the interval
exactly when the significand is even. -/
def Accepts (r : Rounding) (grid : Int) (x : Nat) : Prop :=
  if r.significand % 2 = 0 then
    r.low * r.unitFactor grid ≤ x * r.gridFactor grid ∧
      x * r.gridFactor grid ≤ r.high * r.unitFactor grid
  else
    r.low * r.unitFactor grid < x * r.gridFactor grid ∧
      x * r.gridFactor grid < r.high * r.unitFactor grid

instance (r : Rounding) (grid : Int) (x : Nat) : Decidable (r.Accepts grid x) := by
  unfold Accepts
  infer_instance

/-- The exponent of the leading decimal digit of the number. -/
def leading (r : Rounding) : Int :=
  let numerator := r.point * Nat.pow 2 (r.scale - 2).toNat
  let denominator := Nat.pow 2 (2 - r.scale).toNat
  if denominator ≤ numerator then (digitCount (numerator / denominator) : Int) - 1
  else -(digitCount ((denominator - 1) / numerator) : Int)

/-- The accepted point of the grid nearest to the number, if one of the number's
two neighbours on the grid is accepted. -/
def nearest? (r : Rounding) (grid : Int) : Option Nat :=
  let target := r.point * r.unitFactor grid
  let factor := r.gridFactor grid
  let below := target / factor
  let above := below + 1
  match decide (r.Accepts grid below), decide (r.Accepts grid above) with
  | false, false => none
  | true, false => some below
  | false, true => some above
  | true, true =>
    let down := target - below * factor
    let up := above * factor - target
    if down < up then some below
    else if up < down then some above
    else if below % 2 = 0 then some below else some above

/-- The shortest decimal of the number. Seventeen digits always suffice. -/
def shortest (r : Rounding) : Decimal :=
  let attempt (count : Nat) : Option Decimal :=
    let grid := r.leading - count
    (r.nearest? grid).map fun x => ⟨x, grid⟩
  ((List.range 17).findSome? attempt).getD ⟨0, 0⟩

end Rounding

end Decimal

/-- The shortest decimal of the absolute value of a finite number. -/
def Binary64.shortestDecimal (x : Binary64) : Decimal :=
  if x.significand = 0 then ⟨0, 0⟩
  else Decimal.Rounding.shortest ⟨x.significand, x.scale⟩

end LuaDump
