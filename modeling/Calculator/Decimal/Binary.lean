namespace Calculator.Decimal

structure Magnitude where
  significand : Nat
  exponent : Int
  deriving DecidableEq, Repr

inductive Reading where
  | nan
  | infinite (negative : Bool)
  | finite (negative : Bool) (magnitude : Magnitude)
  deriving DecidableEq, Repr

def Reading.ofBits (bits : Nat) : Reading :=
  let negative := bits / Nat.pow 2 63 % 2 == 1
  let field : Nat := bits / Nat.pow 2 52 % Nat.pow 2 11
  let fraction : Nat := bits % Nat.pow 2 52
  if field = Nat.pow 2 11 - 1 then
    if fraction = 0 then .infinite negative else .nan
  else if field = 0 then
    .finite negative ⟨fraction, -1074⟩
  else
    .finite negative ⟨Nat.pow 2 52 + fraction, (field : Int) - 1075⟩

def Reading.ofFloat (value : Float) : Reading :=
  .ofBits value.toBits.toNat

/-- The reals that a float stands for, over one denominator: those nearer to it than to its
neighbours, and those midway when its significand is even. -/
structure Rounding where
  low : Nat
  value : Nat
  high : Nat
  denominator : Nat
  closed : Bool
  deriving DecidableEq, Repr

/-- The float below the least significand of an exponent lies half as far away as the one above. -/
def Magnitude.rounding (m : Magnitude) : Rounding :=
  let unit := Nat.pow 2 m.exponent.toNat
  let below := if m.significand = Nat.pow 2 52 ∧ m.exponent ≠ -1074 then 1 else 2
  { low := (4 * m.significand - below) * unit
    value := 4 * m.significand * unit
    high := (4 * m.significand + 2) * unit
    denominator := 4 * Nat.pow 2 (-m.exponent).toNat
    closed := m.significand % 2 == 0 }

end Calculator.Decimal
