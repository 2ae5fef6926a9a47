import Calculator.Decimal.Binary

namespace Calculator

namespace Decimal.Rounding

def onGrid (r : Rounding) (grid : Int) : Rounding :=
  let scale := Nat.pow 10 (-grid).toNat
  { low := r.low * scale
    value := r.value * scale
    high := r.high * scale
    denominator := r.denominator * Nat.pow 10 grid.toNat
    closed := r.closed }

def Holds (r : Rounding) (n : Nat) : Prop :=
  if r.closed then r.low ≤ n * r.denominator ∧ n * r.denominator ≤ r.high
  else r.low < n * r.denominator ∧ n * r.denominator < r.high

instance (r : Rounding) (n : Nat) : Decidable (r.Holds n) := by
  unfold Holds
  infer_instance

def nearest (r : Rounding) : Nat :=
  let n := r.value / r.denominator
  if 2 * (r.value - n * r.denominator) < r.denominator then n else n + 1

def pick (r : Rounding) : Option Nat :=
  let n := r.value / r.denominator
  if r.Holds n then
    if r.Holds (n + 1) then some r.nearest else some n
  else if r.Holds (n + 1) then some (n + 1) else none

def leading (r : Rounding) : Int :=
  let guess := ((Nat.toDigits 10 r.value).length : Int) - (Nat.toDigits 10 r.denominator).length
  let scaled := r.onGrid guess
  if scaled.denominator ≤ scaled.value then guess else guess - 1

end Decimal.Rounding

structure Decimal where
  digits : Nat
  exponent : Int
  deriving DecidableEq, Repr

namespace Decimal

def trim (d : Decimal) : Decimal :=
  if d.digits ≠ 0 ∧ d.digits % 10 = 0 then trim ⟨d.digits / 10, d.exponent + 1⟩ else d
termination_by d.digits
decreasing_by omega

/-- The coarsest grid from `grid` down that has a decimal among the reals, and failing that the
nearest decimal on the finest of them. -/
def Rounding.search (r : Rounding) (grid : Int) : Nat → Decimal
  | 0 => ⟨(r.onGrid grid).nearest, grid⟩
  | finer + 1 =>
    match (r.onGrid grid).pick with
    | some n => ⟨n, grid⟩
    | none => r.search (grid - 1) finer

/-- Seventeen digits tell any two floats apart, so the finest grid is sixteen below the leading
digit. -/
def Magnitude.shortest (m : Magnitude) : Decimal :=
  if m.significand = 0 then ⟨0, 0⟩
  else (m.rounding.search m.rounding.leading 16).trim

end Decimal

end Calculator
